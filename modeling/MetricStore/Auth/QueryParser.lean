import MetricStore.Common.Bytes
import MetricStore.Common.GoMap

/-!
# Source ids of a PromQL query

Model of `QueryParser.ExtractSourceIds` (`pkg/cfauthproxy/query_parsing.go`) over
the syntax trees of the vendored `promql` package (`promql/ast.go`): `Walk` visits
a tree in depth-first order, and the visitor collects the values of the `source_id`
matchers of every selector, or fails.

The parser `promql.ParseExpr` is a parameter, and so is the order in which Go
iterates over the map of ids (`MapOrder`). The fields of a node that neither `Walk`
nor the visitor looks at (operators, literals, ranges, groupings) are left out.
-/

namespace MetricStore.Auth

open MetricStore.Common

/-! ## Syntax trees -/

/-- `labels.MatchType`. -/
inductive MatchType
  | equal
  | notEqual
  | regexp
  | notRegexp
  deriving DecidableEq, Repr

/-- `labels.Matcher`. -/
structure Matcher where
  type : MatchType
  name : Bytes
  value : Bytes
  deriving DecidableEq, Repr

/-- `promql.Expr`. The expression and the parameter of an aggregation may be nil. -/
inductive Expr
  | aggregate (expr param : Option Expr)
  | binary (lhs rhs : Expr)
  | call (args : List Expr)
  | matrixSelector (labelMatchers : List Matcher)
  | subquery (expr : Expr)
  | numberLiteral
  | paren (expr : Expr)
  | stringLiteral
  | unary (expr : Expr)
  | vectorSelector (labelMatchers : List Matcher)

/-! ## The visitor -/

/-- The set of ids: the keys of the Go map, each once. -/
abbrev SourceIds := List Bytes

/-- `addSourceIdsFromLabelMatcher` (lines 85–94). -/
def addSourceIdsFromLabelMatcher (sourceIds : SourceIds) (labelMatcher : Matcher) :
    Except String SourceIds :=
  match labelMatcher.type with
  | .regexp | .notRegexp | .notEqual => .error "only strict equality is allowed on source id"
  | .equal => .ok (sourceIds.insert labelMatcher.value)

/-- The loop of `addSourceIdsFromMatchers` (lines 65–83), with the flag
    `containsValidSourceId`. -/
def addSourceIdsLoop : List Matcher → SourceIds → Bool → Except String SourceIds
  | [], sourceIds, containsValidSourceId =>
    if containsValidSourceId then .ok sourceIds
    else .error "one or more terms lack a sourceId"
  | labelMatcher :: rest, sourceIds, containsValidSourceId =>
    if labelMatcher.name = lit "source_id" ∧ labelMatcher.value ≠ [] then
      match addSourceIdsFromLabelMatcher sourceIds labelMatcher with
      | .error e => .error e
      | .ok sourceIds => addSourceIdsLoop rest sourceIds true
    else addSourceIdsLoop rest sourceIds containsValidSourceId

/-- `addSourceIdsFromMatchers` (lines 65–83). -/
def addSourceIdsFromMatchers (sourceIds : SourceIds) (labelMatchers : List Matcher) :
    Except String SourceIds :=
  addSourceIdsLoop labelMatchers sourceIds false

/-- `Visit` (lines 45–63) of a node that is not nil. -/
def visit (sourceIds : SourceIds) : Expr → Except String SourceIds
  | .vectorSelector labelMatchers => addSourceIdsFromMatchers sourceIds labelMatchers
  | .matrixSelector labelMatchers => addSourceIdsFromMatchers sourceIds labelMatchers
  | _ => .ok sourceIds

mutual

/-- `promql.Walk` with this visitor: the node, and then its `Children`. -/
def walk (node : Expr) (sourceIds : SourceIds) : Except String SourceIds :=
  match visit sourceIds node with
  | .error e => .error e
  | .ok sourceIds =>
    match node with
    | .aggregate expr param => (walkOption expr sourceIds).bind (walkOption param)
    | .binary lhs rhs => (walk lhs sourceIds).bind (walk rhs)
    | .call args => walkList args sourceIds
    | .subquery expr => walk expr sourceIds
    | .paren expr => walk expr sourceIds
    | .unary expr => walk expr sourceIds
    | .matrixSelector _ | .numberLiteral | .stringLiteral | .vectorSelector _ => .ok sourceIds

/-- The children in a list. -/
def walkList (nodes : List Expr) (sourceIds : SourceIds) : Except String SourceIds :=
  match nodes with
  | [] => .ok sourceIds
  | node :: rest => (walk node sourceIds).bind (walkList rest)

/-- A child that may be nil. -/
def walkOption (node : Option Expr) (sourceIds : SourceIds) : Except String SourceIds :=
  match node with
  | none => .ok sourceIds
  | some node => walk node sourceIds

end

/-- `ExtractSourceIds` (lines 12–37). -/
def extractSourceIds (parseExpr : Bytes → Except String Expr) (order : MapOrder Bytes)
    (query : Bytes) : Except String (List Bytes) :=
  match parseExpr query with
  | .error e => .error e
  | .ok expr =>
    match walk expr [] with
    | .error e => .error e
    | .ok sourceIds => .ok (order.iterate sourceIds)

end MetricStore.Auth
