import ValueNames.Span

/-!
# Conditions and guards

A conditional block of a C text opens with `#if`, `#ifdef` or `#ifndef`. Its
guard is the condition as written; the branch after `#else` has the
complementary guard. For the two `defined` tests the complement is its own
inverse; for `#if` each one adds a negation. Guards are printed as an opening
line and a closing line that repeats the condition in a comment.
-/

namespace ValueNames

/-! ## Keywords -/

/-- The directives that open a block. -/
inductive Opener
  /-- `#if`: the condition is an expression. -/
  | expression
  /-- `#ifdef`: the condition names a macro that must be defined. -/
  | defined
  /-- `#ifndef`: the condition names a macro that must not be defined. -/
  | undefined
deriving DecidableEq, Repr

/-- The directives that end a branch. -/
inductive Closer
  /-- `#else`: the complementary branch follows. -/
  | alternative
  /-- `#endif`: the block ends. -/
  | final
deriving DecidableEq, Repr

/-- The keyword of an opening directive. -/
def Opener.word : Opener → Text
  | .expression => "if".toList
  | .defined => "ifdef".toList
  | .undefined => "ifndef".toList

/-- The keyword of a closing directive. -/
def Closer.word : Closer → Text
  | .alternative => "else".toList
  | .final => "endif".toList

/-! ## Guards -/

/-- The condition under which the lines of a branch are compiled. -/
structure Guard where
  opener : Opener
  condition : Text
deriving DecidableEq, Repr

namespace Guard

/-- The guard of the branch after `#else`. -/
def complement (guard : Guard) : Guard :=
  match guard.opener with
  | .expression => ⟨.expression, "!( ".toList ++ guard.condition ++ " )".toList⟩
  | .defined => ⟨.undefined, guard.condition⟩
  | .undefined => ⟨.defined, guard.condition⟩

/-- The line that opens the guard, such as `#ifdef FOO`. -/
def opening (guard : Guard) : Text := '#' :: guard.opener.word ++ ' ' :: guard.condition

/-- The line that closes the guard, with the condition in a comment. -/
def closing (guard : Guard) : Text :=
  "#endif /* ".toList ++
    (match guard.opener with
    | .expression => guard.condition
    | .defined => "defined(".toList ++ guard.condition ++ ")".toList
    | .undefined => "!defined(".toList ++ guard.condition ++ ")".toList) ++
    " */".toList

end Guard

/-! ## Open blocks -/

/-- A branch that awaits its `#else` or `#endif`. -/
structure Block where
  guard : Guard
  /-- The span of the line that opened the branch, which may be an `#else`. -/
  opened : Span
deriving DecidableEq, Repr

/-- The branch that an `#else` line opens in place of this one. -/
def Block.alternative (block : Block) (elseLine : Span) : Block :=
  ⟨block.guard.complement, elseLine⟩

end ValueNames
