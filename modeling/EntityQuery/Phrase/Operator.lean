/-!
# Operators

The operators that a query is written with and that its interpretation keeps.
-/

namespace EntityQuery

inductive ArithmeticOperator where
  | add
  | subtract
  | multiply
  | divide
  deriving DecidableEq, Repr

namespace ArithmeticOperator

def symbol : ArithmeticOperator → String
  | add => "+"
  | subtract => "-"
  | multiply => "*"
  | divide => "/"

end ArithmeticOperator

inductive Sign where
  | plus
  | minus
  deriving DecidableEq, Repr

inductive ComparisonOperator where
  | equal
  | notEqual
  | lessThan
  | lessThanOrEqual
  | greaterThan
  | greaterThanOrEqual
  deriving DecidableEq, Repr

namespace ComparisonOperator

def symbol : ComparisonOperator → String
  | equal => "="
  | notEqual => "<>"
  | lessThan => "<"
  | lessThanOrEqual => "<="
  | greaterThan => ">"
  | greaterThanOrEqual => ">="

/-- The operator that holds exactly where this one does not. -/
def negate : ComparisonOperator → ComparisonOperator
  | equal => notEqual
  | notEqual => equal
  | lessThan => greaterThanOrEqual
  | lessThanOrEqual => greaterThan
  | greaterThan => lessThanOrEqual
  | greaterThanOrEqual => lessThan

@[simp] theorem negate_negate (operator : ComparisonOperator) :
    operator.negate.negate = operator := by
  cases operator <;> rfl

end ComparisonOperator

inductive JoinType where
  | inner
  | left
  | right
  | full
  deriving DecidableEq, Repr

namespace JoinType

def text : JoinType → String
  | inner => "inner"
  | left => "left outer"
  | right => "right outer"
  | full => "full outer"

end JoinType

/-- The functions that take a map apart. -/
inductive MapFunction where
  | key
  | value
  | entry
  deriving DecidableEq, Repr

end EntityQuery
