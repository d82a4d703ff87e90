import ChaosPlus.DepartmentTree

/-!
# Departments changed by concurrent transactions

The transactions of the department calls run beside one another with the isolation the
databases give by default: a statement sees what is committed, and only written rows are
locked. Nothing is locked before the parent is checked, so two moves that are each allowed
can close a cycle. Where what a transaction read still stands at its commit, the trees stay
trees.
-/
namespace DepartmentMoves

open DepartmentService DepartmentStore DepartmentTree InterleavedTransactions ParentForest StepRuns

variable (lower : Char → Char)

abbrev Transactions := State Operation Statement Answer Constraint DepartmentError
  (Option Department) Db Write

def step (s : Transactions) (e : Event Operation) : Option Transactions :=
  InterleavedTransactions.step store (program lower) s e

/-- A transaction alone from its start to its commit. -/
def whole (operation : Operation) (statements : Nat) : List (Event Operation) :=
  .start operation :: List.replicate statements (.statement 0) ++ [.commit 0]

def twoDepartments : List (Event Operation) :=
  whole (.create "acme" "a" { name := "A" }) 4 ++ whole (.create "acme" "b" { name := "B" }) 4

def moveUnder (id parentID : String) : Operation :=
  .update "acme" id { parentID := some parentID, version := 1 }

/-- Both moves check their new parent before either has written. -/
def crossedMoves : List (Event Operation) :=
  twoDepartments ++ [.start (moveUnder "a" "b"), .start (moveUnder "b" "a")] ++
    (List.replicate 9 [.statement 0, .statement 1]).flatten ++
    [.statement 0, .commit 0, .statement 0, .commit 0]

/-- A move and a creation below the new parent do not disturb each other. -/
def sharedParent : List (Event Operation) :=
  twoDepartments ++ [.start (moveUnder "a" "b"),
    .start (.create "acme" "c" { parentID := "b", name := "C" })] ++
    (List.replicate 6 [.statement 0, .statement 1]).flatten ++
    List.replicate 3 (.statement 0) ++ [.statement 0, .commit 0, .statement 0, .commit 0]

end DepartmentMoves
