import MetricStore.Auth.Middleware
import MetricStore.Persistence.FilterTranslator

/-!
# The series an accepted query selects

What `ExtractSourceIds` (`pkg/cfauthproxy/query_parsing.go`) says about a PromQL
expression, for every syntax tree: which trees it accepts, which ids it returns, and that
every series which a selector of the tree selects has one of them.

A selector is known by its matchers. A series is selected if all of them match its labels,
as `labels.Matcher.Matches` decides it, or as the store decides it after
`ToInfluxFilters`.

Results:
* `extractSourceIds_exact`: accepted trees and returned ids.
* `Provider.allowed_series`: a query the middleware allows a token selects only series whose
  source id the token may read.
-/

namespace MetricStore.Auth

open MetricStore.Common
open MetricStore.Common.Regexp (Expression)
open MetricStore.Persistence (Labels)

/-! ## Selectors -/

mutual

/-- The matchers of the vector and matrix selectors of a tree. -/
def Expr.selectors : Expr → List (List Matcher)
  | .aggregate expr param => selectorsOption expr ++ selectorsOption param
  | .binary lhs rhs => lhs.selectors ++ rhs.selectors
  | .call args => selectorsList args
  | .subquery expr | .paren expr | .unary expr => expr.selectors
  | .matrixSelector labelMatchers | .vectorSelector labelMatchers => [labelMatchers]
  | .numberLiteral | .stringLiteral => []

def selectorsList : List Expr → List (List Matcher)
  | [] => []
  | node :: rest => node.selectors ++ selectorsList rest

def selectorsOption : Option Expr → List (List Matcher)
  | none => []
  | some node => node.selectors

end

/-- A matcher on `source_id` with a value. -/
def Matcher.OnSourceId (m : Matcher) : Prop := m.name = lit "source_id" ∧ m.value ≠ []

instance (m : Matcher) : Decidable m.OnSourceId := inferInstanceAs (Decidable (_ ∧ _))

/-- A selector with an equality on `source_id`, and no other matcher on it. -/
def Strict (labelMatchers : List Matcher) : Prop :=
  (∃ m ∈ labelMatchers, m.OnSourceId ∧ m.type = .equal) ∧
    ∀ m ∈ labelMatchers, m.OnSourceId → m.type = .equal

instance (labelMatchers : List Matcher) : Decidable (Strict labelMatchers) :=
  inferInstanceAs (Decidable (_ ∧ _))

/-- The values of the matchers on `source_id`. -/
def sourceIdValues (labelMatchers : List Matcher) : List Bytes :=
  (labelMatchers.filter fun m => m.OnSourceId).map Matcher.value

/-! ## One selector -/

theorem addSourceIdsLoop_eq_ok_iff (ms : List Matcher) (ids ids' : SourceIds) (found : Bool) :
    addSourceIdsLoop ms ids found = .ok ids' ↔
      (found = true ∨ ∃ m ∈ ms, m.OnSourceId) ∧ (∀ m ∈ ms, m.OnSourceId → m.type = .equal) ∧
        ids' = (sourceIdValues ms).foldl (fun ids v => ids.insert v) ids := by
  induction ms generalizing ids found with
  | nil =>
    unfold addSourceIdsLoop
    cases found <;> simp [sourceIdValues, eq_comm]
  | cons m ms ih =>
    rw [addSourceIdsLoop]
    by_cases hm : m.OnSourceId
    · have hvalues : sourceIdValues (m :: ms) = m.value :: sourceIdValues ms := by
        simp [sourceIdValues, hm]
      have hon : m.name = lit "source_id" ∧ m.value ≠ [] := hm
      rw [if_pos hon, hvalues, List.foldl_cons]
      cases ht : m.type with
      | equal =>
        have hadd : addSourceIdsFromLabelMatcher ids m = .ok (ids.insert m.value) := by
          unfold addSourceIdsFromLabelMatcher
          rw [ht]
        rw [hadd]
        dsimp only
        rw [ih]
        simp [hm, ht]
      | notEqual | regexp | notRegexp =>
        have hadd : addSourceIdsFromLabelMatcher ids m =
            .error "only strict equality is allowed on source id" := by
          unfold addSourceIdsFromLabelMatcher
          rw [ht]
        rw [hadd]
        simp [hm, ht]
    · have hvalues : sourceIdValues (m :: ms) = sourceIdValues ms := by
        simp [sourceIdValues, hm]
      have hnot : ¬ (m.name = lit "source_id" ∧ m.value ≠ []) := hm
      rw [if_neg hnot, ih, hvalues]
      simp [hm]

theorem addSourceIdsFromMatchers_eq_ok_iff (ms : List Matcher) (ids ids' : SourceIds) :
    addSourceIdsFromMatchers ids ms = .ok ids' ↔
      Strict ms ∧ ids' = (sourceIdValues ms).foldl (fun ids v => ids.insert v) ids := by
  unfold addSourceIdsFromMatchers Strict
  rw [addSourceIdsLoop_eq_ok_iff]
  constructor
  · rintro ⟨hfound, hall, heq⟩
    obtain ⟨m, hm, hon⟩ := hfound.resolve_left Bool.false_ne_true
    exact ⟨⟨⟨m, hm, hon, hall m hm hon⟩, hall⟩, heq⟩
  · rintro ⟨⟨⟨m, hm, hon, -⟩, hall⟩, heq⟩
    exact ⟨.inr ⟨m, hm, hon⟩, hall, heq⟩

/-! ## The whole tree -/

mutual

/-- `Walk` visits the selectors of the tree, one after the other. -/
theorem walk_eq : ∀ (node : Expr) (ids : SourceIds),
    walk node ids = node.selectors.foldlM addSourceIdsFromMatchers ids
  | .aggregate expr param, ids => by
    show (walkOption expr ids).bind (walkOption param) = _
    rw [Expr.selectors, List.foldlM_append, walkOption_eq expr ids]
    exact congrArg _ (funext (walkOption_eq param))
  | .binary lhs rhs, ids => by
    show (walk lhs ids).bind (walk rhs) = _
    rw [Expr.selectors, List.foldlM_append, walk_eq lhs ids]
    exact congrArg _ (funext (walk_eq rhs))
  | .call args, ids => walkList_eq args ids
  | .subquery expr, ids => walk_eq expr ids
  | .paren expr, ids => walk_eq expr ids
  | .unary expr, ids => walk_eq expr ids
  | .matrixSelector ms, ids => by
    rw [walk, visit, Expr.selectors, List.foldlM_cons]
    cases addSourceIdsFromMatchers ids ms <;> rfl
  | .vectorSelector ms, ids => by
    rw [walk, visit, Expr.selectors, List.foldlM_cons]
    cases addSourceIdsFromMatchers ids ms <;> rfl
  | .numberLiteral, _ => rfl
  | .stringLiteral, _ => rfl

theorem walkList_eq : ∀ (nodes : List Expr) (ids : SourceIds),
    walkList nodes ids = (selectorsList nodes).foldlM addSourceIdsFromMatchers ids
  | [], _ => rfl
  | node :: rest, ids => by
    rw [walkList, selectorsList, List.foldlM_append, walk_eq node ids]
    exact congrArg _ (funext (walkList_eq rest))

theorem walkOption_eq : ∀ (node : Option Expr) (ids : SourceIds),
    walkOption node ids = (selectorsOption node).foldlM addSourceIdsFromMatchers ids
  | none, _ => rfl
  | some node, ids => walk_eq node ids

end

theorem foldlM_eq_ok_iff (selectors : List (List Matcher)) (ids ids' : SourceIds) :
    selectors.foldlM addSourceIdsFromMatchers ids = .ok ids' ↔
      (∀ ms ∈ selectors, Strict ms) ∧
        ids' = (selectors.flatMap sourceIdValues).foldl (fun ids v => ids.insert v) ids := by
  induction selectors generalizing ids with
  | nil => exact ⟨fun h => ⟨by simp, (Except.ok.inj h).symm⟩, fun h => by rw [h.2]; rfl⟩
  | cons ms selectors ih =>
    rw [List.foldlM_cons, List.flatMap_cons, List.foldl_append, List.forall_mem_cons]
    constructor
    · intro h
      cases hms : addSourceIdsFromMatchers ids ms with
      | error e => rw [hms] at h; cases h
      | ok ids₁ =>
        rw [hms] at h
        obtain ⟨hstrict, rfl⟩ := (addSourceIdsFromMatchers_eq_ok_iff ms ids ids₁).mp hms
        obtain ⟨hall, heq⟩ := (ih _).mp h
        exact ⟨⟨hstrict, hall⟩, heq⟩
    · rintro ⟨⟨hstrict, hall⟩, heq⟩
      rw [(addSourceIdsFromMatchers_eq_ok_iff ms ids _).mpr ⟨hstrict, rfl⟩]
      exact (ih _).mpr ⟨hall, heq⟩

theorem foldl_insert (values ids : List Bytes) (h : ids.Nodup) :
    (values.foldl (fun ids v => ids.insert v) ids).Nodup ∧
      ∀ id, id ∈ values.foldl (fun ids v => ids.insert v) ids ↔ id ∈ ids ∨ id ∈ values := by
  induction values generalizing ids with
  | nil => exact ⟨h, by simp⟩
  | cons v values ih =>
    obtain ⟨hnodup, hmem⟩ := ih (ids.insert v) (h.insert)
    refine ⟨hnodup, fun id => ?_⟩
    rw [List.foldl_cons, hmem, List.mem_insert_iff, List.mem_cons]
    tauto

theorem mem_sourceIdValues {ms : List Matcher} {id : Bytes} :
    id ∈ sourceIdValues ms ↔ ∃ m ∈ ms, m.OnSourceId ∧ m.value = id := by
  simp [sourceIdValues, and_assoc]

/-- The ids of an accepted tree. -/
theorem extractSourceIds_eq_ok_iff {parseExpr : Bytes → Except String Expr} {order : MapOrder Bytes}
    {query : Bytes} {expr : Expr} (hparse : parseExpr query = .ok expr) {ids : List Bytes} :
    extractSourceIds parseExpr order query = .ok ids ↔
      (∀ ms ∈ expr.selectors, Strict ms) ∧
        ids = order.iterate
          ((expr.selectors.flatMap sourceIdValues).foldl (fun ids v => ids.insert v) []) := by
  unfold extractSourceIds
  simp only [hparse, walk_eq]
  cases hfold : expr.selectors.foldlM addSourceIdsFromMatchers [] with
  | error e =>
    refine ⟨nofun, fun h => ?_⟩
    rw [(foldlM_eq_ok_iff expr.selectors [] _).mpr ⟨h.1, rfl⟩] at hfold
    cases hfold
  | ok sourceIds =>
    obtain ⟨hall, rfl⟩ := (foldlM_eq_ok_iff expr.selectors [] sourceIds).mp hfold
    exact ⟨fun h => ⟨hall, (Except.ok.inj h).symm⟩, fun h => by rw [h.2]⟩

/-! ## Series -/

/-- The Go value of a match type. -/
def MatchType.code : MatchType → Persistence.MatchType
  | .equal => Persistence.matchEqual
  | .notEqual => Persistence.matchNotEqual
  | .regexp => Persistence.matchRegexp
  | .notRegexp => Persistence.matchNotRegexp

/-- The same matcher, as the store takes it. -/
def Matcher.toStore (m : Matcher) : Persistence.Matcher := ⟨m.type.code, m.name, m.value⟩

section Selection

variable (compile : Bytes → Except Bytes Expression)

/-- All matchers match the labels. -/
def Selects (labelMatchers : List Matcher) (l : Labels) : Prop :=
  ∀ m ∈ labelMatchers, m.toStore.matches compile (l.get m.name) = true

/-- The labels satisfy the condition that the store makes of the matchers. -/
def StoreSelects (labelMatchers : List Matcher) (l : Labels) : Prop :=
  ∃ filter, Persistence.toInfluxFilters compile (labelMatchers.map Matcher.toStore) = .ok filter ∧
    Persistence.satisfies l filter = true

variable {compile}

theorem Selects.get_eq {ms : List Matcher} {l : Labels} (h : Selects compile ms l) {m : Matcher}
    (hm : m ∈ ms) (ht : m.type = .equal) : l.get m.name = m.value := by
  have hmatch := h m hm
  have htype : m.toStore.type = Persistence.matchEqual := by
    unfold Matcher.toStore
    rw [ht]
    rfl
  unfold Persistence.Matcher.matches at hmatch
  rw [if_pos htype] at hmatch
  exact of_decide_eq_true hmatch

theorem StoreSelects.get_eq {ms : List Matcher} {l : Labels} (h : StoreSelects compile ms l)
    {m : Matcher} (hm : m ∈ ms) (ht : m.type = .equal) : l.get m.name = m.value := by
  obtain ⟨filter, hfilter, hl⟩ := h
  obtain ⟨-, hall⟩ := (Persistence.satisfies_toInfluxFiltersLoop hfilter l).mp hl
  obtain ⟨e, he, hsat⟩ := hall m.toStore (List.mem_map_of_mem hm)
  have hfilter : Persistence.toInfluxFilter compile m.toStore =
      .ok (.binaryExpr (.varRef m.name) (.stringLiteral m.value) .eq) := by
    unfold Matcher.toStore
    rw [ht]
    rfl
  cases he.symm.trans hfilter
  exact of_decide_eq_true hsat

end Selection

section Accepted

variable {parseExpr : Bytes → Except String Expr} {order : MapOrder Bytes} {query : Bytes}
  {expr : Expr} {ids : List Bytes}

theorem extractSourceIds_ids (hparse : parseExpr query = .ok expr)
    (hids : extractSourceIds parseExpr order query = .ok ids) :
    ids.Nodup ∧ ∀ id, id ∈ ids ↔ id ≠ [] ∧ ∃ ms ∈ expr.selectors, ∃ m ∈ ms,
      m.type = .equal ∧ m.name = lit "source_id" ∧ m.value = id := by
  obtain ⟨hall, hiterate⟩ := (extractSourceIds_eq_ok_iff hparse).mp hids
  obtain ⟨hnodup, hmem⟩ := foldl_insert (expr.selectors.flatMap sourceIdValues) [] List.nodup_nil
  have hperm : ids.Perm _ := hiterate ▸ order.perm _
  refine ⟨hperm.nodup_iff.mpr hnodup, fun id => ?_⟩
  rw [hperm.mem_iff, hmem, List.mem_flatMap]
  simp only [List.not_mem_nil, false_or, mem_sourceIdValues]
  constructor
  · rintro ⟨ms, hms, m, hm, hon, rfl⟩
    exact ⟨hon.2, ms, hms, m, hm, (hall ms hms).2 m hm hon, hon.1, rfl⟩
  · rintro ⟨hne, ms, hms, m, hm, -, hname, rfl⟩
    exact ⟨ms, hms, m, hm, ⟨hname, hne⟩, rfl⟩

/-- A selected series has one of the ids: the equality on `source_id` gives its value. -/
theorem selected_sourceId_mem (hparse : parseExpr query = .ok expr)
    (hids : extractSourceIds parseExpr order query = .ok ids)
    {compile : Bytes → Except Bytes Expression} {ms : List Matcher} (hms : ms ∈ expr.selectors)
    {l : Labels} (hselects : Selects compile ms l ∨ StoreSelects compile ms l) :
    l.get (lit "source_id") ∈ ids := by
  obtain ⟨hall, -⟩ := (extractSourceIds_eq_ok_iff hparse).mp hids
  obtain ⟨m, hm, ⟨hname, hne⟩, ht⟩ := (hall ms hms).1
  have hget : l.get m.name = m.value := by
    rcases hselects with h | h
    · exact h.get_eq hm ht
    · exact h.get_eq hm ht
  rw [← hname, hget, (extractSourceIds_ids hparse hids).2]
  exact ⟨hne, ms, hms, m, hm, ht, hname, rfl⟩

end Accepted

/-- **`ExtractSourceIds` is exact.** For every syntax tree: it succeeds exactly if every
    selector has an equality on `source_id` and no other matcher on it, matchers with an
    empty value aside; the ids it returns are the values of these matchers, each once; and
    every series that a selector of the tree selects has one of them as its `source_id`. -/
theorem extractSourceIds_exact (parseExpr : Bytes → Except String Expr) (order : MapOrder Bytes)
    (query : Bytes) (expr : Expr) (hparse : parseExpr query = .ok expr) :
    ((∃ ids, extractSourceIds parseExpr order query = .ok ids) ↔
      ∀ ms ∈ expr.selectors, Strict ms) ∧
    ∀ ids, extractSourceIds parseExpr order query = .ok ids →
      ids.Nodup ∧
      (∀ id, id ∈ ids ↔ id ≠ [] ∧ ∃ ms ∈ expr.selectors, ∃ m ∈ ms,
        m.type = .equal ∧ m.name = lit "source_id" ∧ m.value = id) ∧
      ∀ compile, ∀ ms ∈ expr.selectors, ∀ l : Labels,
        Selects compile ms l ∨ StoreSelects compile ms l → l.get (lit "source_id") ∈ ids := by
  refine ⟨⟨?_, fun hall => ⟨_, (extractSourceIds_eq_ok_iff hparse).mpr ⟨hall, rfl⟩⟩⟩, fun ids hids => ?_⟩
  · rintro ⟨ids, hids⟩
    exact ((extractSourceIds_eq_ok_iff hparse).mp hids).1
  · obtain ⟨hnodup, hmem⟩ := extractSourceIds_ids hparse hids
    exact ⟨hnodup, hmem, fun compile ms hms l => selected_sourceId_mem hparse hids hms⟩

/-- `rate(up{source_id="a"}[5m]) + {source_id="b", source_id=~""}`. -/
def twoTenants : Expr :=
  .binary
    (.call [.matrixSelector [⟨.equal, lit "__name__", lit "up"⟩, ⟨.equal, lit "source_id", lit "a"⟩]])
    (.vectorSelector [⟨.equal, lit "source_id", lit "b"⟩, ⟨.regexp, lit "source_id", []⟩])

theorem extractSourceIds_exact_twoTenants :
    ∃ ids, extractSourceIds (fun _ => .ok twoTenants) ⟨id, fun _ => .refl _⟩ [] = .ok ids ∧
      ids = [lit "b", lit "a"] ∧ ids.Nodup ∧ ∀ compile, ∀ ms ∈ twoTenants.selectors, ∀ l : Labels,
        Selects compile ms l ∨ StoreSelects compile ms l → l.get (lit "source_id") ∈ ids := by
  have h := extractSourceIds_exact (fun _ => .ok twoTenants) ⟨id, fun _ => .refl _⟩ [] twoTenants rfl
  have hids : extractSourceIds (fun _ => .ok twoTenants) ⟨id, fun _ => .refl _⟩ [] =
      .ok [lit "b", lit "a"] := by decide
  exact ⟨_, hids, rfl, (h.2 _ hids).1, (h.2 _ hids).2.2⟩

/-- A query that is allowed for a token selects only series whose source id the token may
    read. -/
theorem Provider.allowed_series {m : Provider} {c : Oauth2ClientContext} {query : Bytes}
    {expr : Expr} (h : m.Allows c query) (hparse : m.parseExpr query = .ok expr)
    {compile : Bytes → Except Bytes Expression} {ms : List Matcher} (hms : ms ∈ expr.selectors)
    {l : Labels} (hselects : Selects compile ms l ∨ StoreSelects compile ms l) :
    m.isAuthorized (l.get (lit "source_id")) c.token = true := by
  obtain ⟨ids, hids, hall⟩ := h
  exact hall _ (selected_sourceId_mem hparse hids hms hselects)

end MetricStore.Auth
