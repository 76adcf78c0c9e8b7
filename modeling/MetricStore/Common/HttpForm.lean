import MetricStore.Common.Bytes

/-!
# Form values and paths of an HTTP request

`net/url` and `net/http` of Go 1.13, as far as form values and paths go, at the level of
bytes: `url.ParseQuery`, `URL.Query`, `Request.ParseMultipartForm` and
`Request.FormValue`, and the path that `url.Parse` finds.

The values of a form are a list of pairs, in the order in which the library adds
them to its map; the first value of a key is the first pair with that key.

* A query string is split at `&` and `;`, a pair at its first `=`; a pair that
  does not unescape is dropped.
* For `POST`, `PUT` and `PATCH` the values of a url-encoded body come before those
  of the URL. A body of more than 10 MiB is not read.
* The values of a multipart body come after those of the URL, and only if
  everything before was well formed.

Results:
* `formValue_eq`: `FormValue` is the value in the URL unless the body has one that
  takes its place (`bodyValue`).
* `urlPath_of_verbatim`: a path is read as it is written, if it has no escape, query,
  fragment or control character.
-/

namespace MetricStore.Common.Http

/-! ## `net/url` -/

/-- `unhex`, for a byte that `ishex` accepts. -/
def unhex (c : UInt8) : Option UInt8 :=
  if 48 ≤ c ∧ c ≤ 57 then some (c - 48)
  else if 97 ≤ c ∧ c ≤ 102 then some (c - 97 + 10)
  else if 65 ≤ c ∧ c ≤ 70 then some (c - 65 + 10)
  else none

/-- `QueryUnescape`; `none` for a malformed escape. -/
def queryUnescape : Bytes → Option Bytes
  | [] => some []
  | 37 :: a :: b :: rest => do
    let hi ← unhex a
    let lo ← unhex b
    let rest ← queryUnescape rest
    return (hi * 16 + lo) :: rest
  | 37 :: _ => none
  | 43 :: rest => (queryUnescape rest).map (32 :: ·)
  | c :: rest => (queryUnescape rest).map (c :: ·)

/-- The pieces of a query string between the separators `&` and `;`. -/
def pieces : Bytes → List Bytes
  | [] => [[]]
  | c :: rest =>
    if c = 38 ∨ c = 59 then [] :: pieces rest
    else
      match pieces rest with
      | [] => [[c]]
      | p :: ps => (c :: p) :: ps

/-- The key and the value of a piece, split at the first `=`. -/
def keyValue (piece : Bytes) : Bytes × Bytes :=
  (piece.takeWhile (· ≠ 61), (piece.dropWhile (· ≠ 61)).tail)

/-- The pair of a piece; `none` if it does not unescape. -/
def parsePair (piece : Bytes) : Option (Bytes × Bytes) := do
  let key ← queryUnescape (keyValue piece).1
  let value ← queryUnescape (keyValue piece).2
  return (key, value)

/-- `ParseQuery`: the pairs, and whether there was no error. -/
def parseQuery (query : Bytes) : List (Bytes × Bytes) × Bool :=
  let ps := (pieces query).filter (· ≠ [])
  (ps.filterMap parsePair, ps.all fun p => (parsePair p).isSome)

/-- The first value of a key. -/
def first (key : Bytes) (values : List (Bytes × Bytes)) : Option Bytes :=
  (values.find? fun kv => kv.1 = key).map Prod.snd

/-! ## `net/http` -/

/-- The methods; `other` stands for all that are not named. -/
inductive Method
  | get
  | post
  | put
  | patch
  | other
  deriving DecidableEq, Repr

/-- A request body: a url-encoded form, a multipart form with its values, or anything
    else. -/
inductive Body
  | urlencoded (raw : Bytes)
  | multipart (values : List (Bytes × Bytes))
  | other
  deriving DecidableEq, Repr

/-- The parts of a request that the handlers look at. -/
structure Request where
  method : Method
  path : String
  rawQuery : Bytes
  authorization : Bytes
  body : Body
  deriving DecidableEq, Repr

namespace Request

/-- The limit on the size of a url-encoded body. -/
def maxFormSize : ℕ := 10 * 2 ^ 20

/-- `parsePostForm`, called for `POST`, `PUT` and `PATCH`. -/
def postForm (r : Request) : List (Bytes × Bytes) × Bool :=
  match r.method, r.body with
  | .post, .urlencoded raw | .put, .urlencoded raw | .patch, .urlencoded raw =>
    if raw.length > maxFormSize then ([], false) else parseQuery raw
  | _, _ => ([], true)

/-- The values that `ParseMultipartForm` adds after those of `ParseForm`. -/
def multipartForm (r : Request) : List (Bytes × Bytes) :=
  match r.body with
  | .multipart values => if r.postForm.2 && (parseQuery r.rawQuery).2 then values else []
  | _ => []

/-- `r.Form`, as `ParseMultipartForm` leaves it. -/
def form (r : Request) : List (Bytes × Bytes) :=
  r.postForm.1 ++ (parseQuery r.rawQuery).1 ++ r.multipartForm

/-- `r.FormValue(key)`. -/
def formValue (r : Request) (key : Bytes) : Bytes := (first key r.form).getD []

/-- `r.URL.Query().Get(key)`. -/
def urlValue (r : Request) (key : Bytes) : Bytes := (first key (parseQuery r.rawQuery).1).getD []

/-- The value of the body that `FormValue` returns in place of the URL's. -/
def bodyValue (r : Request) (key : Bytes) : Option Bytes :=
  match first key r.postForm.1 with
  | some v => some v
  | none =>
    match first key (parseQuery r.rawQuery).1 with
    | some _ => none
    | none => first key r.multipartForm

theorem first_append (key : Bytes) (xs ys : List (Bytes × Bytes)) :
    first key (xs ++ ys) = (first key xs).or (first key ys) := by
  unfold first
  rw [List.find?_append]
  cases xs.find? fun kv => kv.1 = key <;> rfl

/-- `FormValue` returns the body's value if it takes the place of the URL's. -/
theorem formValue_eq (r : Request) (key : Bytes) :
    r.formValue key = (r.bodyValue key).getD (r.urlValue key) := by
  unfold formValue bodyValue urlValue form
  rw [first_append, first_append]
  cases first key r.postForm.1 with
  | some v => rfl
  | none =>
    cases first key (parseQuery r.rawQuery).1 with
    | some v => rfl
    | none => cases first key r.multipartForm <;> rfl

end Request

/-! ## Paths -/

/-- `unescape` in a path or a fragment; `none` for a malformed escape. -/
def pathUnescape : Bytes → Option Bytes
  | [] => some []
  | 37 :: a :: b :: rest => do
    let hi ← unhex a
    let lo ← unhex b
    let rest ← pathUnescape rest
    return (hi * 16 + lo) :: rest
  | 37 :: _ => none
  | c :: rest => (pathUnescape rest).map (c :: ·)

/-- A control character of ASCII, which `url.Parse` rejects. -/
def isCTL (c : UInt8) : Bool := c < 32 || c = 127

/-- The path that `url.Parse` finds in what follows the host of a URL: what is before the
    fragment and the query, without its escapes. -/
def urlPath (url : Bytes) : Option Bytes :=
  let u := url.takeWhile (· ≠ 35)
  let fragment := (url.dropWhile (· ≠ 35)).tail
  if u.any isCTL then none
  else if pathUnescape fragment = none then none
  else pathUnescape (u.takeWhile (· ≠ 63))

/-- A byte that stands for itself in a path: no percent sign, question mark, number sign or
    control character. -/
def verbatim (c : UInt8) : Bool := c ≠ 37 && c ≠ 63 && c ≠ 35 && !isCTL c

theorem pathUnescape_of_no_percent {s : Bytes} (h : 37 ∉ s) : pathUnescape s = some s := by
  induction s with
  | nil => rfl
  | cons c s ih =>
    rw [List.mem_cons, not_or] at h
    unfold pathUnescape
    split
    · rename_i heq
      cases heq
    · rename_i heq
      cases heq
      exact absurd rfl h.1
    · rename_i heq
      cases heq
      exact absurd rfl h.1
    · rename_i heq
      cases heq
      rw [ih h.2]
      rfl

theorem urlPath_of_verbatim {url : Bytes} (h : url.all verbatim = true) :
    urlPath url = some url := by
  have hbyte : ∀ c ∈ url, c ≠ 37 ∧ c ≠ 63 ∧ c ≠ 35 ∧ isCTL c = false := by
    intro c hc
    have := List.all_eq_true.1 h c hc
    simpa [verbatim, and_assoc] using this
  have hfragment : url.takeWhile (· ≠ 35) = url :=
    List.takeWhile_eq_self_iff.2 fun c hc => by simp [(hbyte c hc).2.2.1]
  have hrest : url.dropWhile (· ≠ 35) = [] :=
    List.dropWhile_eq_nil_iff.2 fun c hc => by simp [(hbyte c hc).2.2.1]
  have hquery : url.takeWhile (· ≠ 63) = url :=
    List.takeWhile_eq_self_iff.2 fun c hc => by simp [(hbyte c hc).2.1]
  have hctl : ¬ url.any isCTL = true := by
    rw [List.any_eq_true]
    rintro ⟨c, hc, hctl⟩
    rw [(hbyte c hc).2.2.2] at hctl
    cases hctl
  unfold urlPath
  dsimp only
  rw [hfragment, hrest, hquery, if_neg hctl, if_neg (by decide)]
  exact pathUnescape_of_no_percent fun hc => (hbyte 37 hc).1 rfl

end MetricStore.Common.Http
