import MetricStore.Common.Bytes
import MetricStore.Common.GoMap

/-!
# Points of the time-series database

Model of `models.NewPoint` of the vendored `influxdb` (`models/points.go`,
`models/time.go`): the checks of `pointKey`, and the series key, which is the escaped
measurement name followed by the escaped tags in the order of their names.

* `length_makeKey`: the length of a series key, as a sum over the tags.
* `newPoint_ok_iff`: `NewPoint` succeeds exactly when there is a field, the time is in
  range, no field is a NaN or infinite float or has an empty name, and the key with
  each field's name is at most 65535 bytes long.
-/

namespace MetricStore.Influx

open MetricStore.Common

/-! ## Values -/

/-- A `float64`, by its bits. -/
abbrev Float64 := BitVec 64

/-- The biased exponent. -/
def exponent (v : Float64) : BitVec 11 := v.extractLsb' 52 11

/-- The fraction. -/
def fraction (v : Float64) : BitVec 52 := v.extractLsb' 0 52

/-- `math.IsInf(v, 0)`. -/
def isInf (v : Float64) : Bool := exponent v == 2047 && fraction v == 0

/-- `math.IsNaN(v)`. -/
def isNaN (v : Float64) : Bool := exponent v == 2047 && fraction v != 0

/-- The types of field values that the store writes. -/
inductive FieldValue
  | float (v : Float64)
  | string (s : Bytes)
  deriving DecidableEq

/-- `models.Fields`. -/
abbrev Fields := GoMap Bytes FieldValue

/-- `models.Tags`. -/
abbrev Tags := List (Bytes × Bytes)

/-- `Tags.Set`: replace the value of the tag, or add it and sort by name. -/
def Tags.set (tags : Tags) (key value : Bytes) : Tags :=
  match tags.findIdx? fun t => t.1 = key with
  | some i => List.set tags i (key, value)
  | none => (tags ++ [(key, value)]).insertionSort fun t t' => t.1 ≤ t'.1

/-! ## Series keys -/

/-- The backslash. -/
def backslash : UInt8 := 92

/-- `measurementEscapeCodes`: comma and space. -/
def measurementEscapeCodes : Bytes := [44, 32]

/-- `tagEscapeCodes`: comma, space and the equals sign. -/
def tagEscapeCodes : Bytes := [44, 32, 61]

/-- `bytes.Replace(in, c.k, c.esc, -1)`. -/
def escapeByte (c : UInt8) (s : Bytes) : Bytes :=
  s.flatMap fun b => if b = c then [backslash, c] else [b]

/-- `bytes.Replace(in, c.esc, c.k, -1)`. -/
def unescapeByte (c : UInt8) : Bytes → Bytes
  | [] => []
  | [b] => [b]
  | a :: b :: rest =>
    if a = backslash ∧ b = c then c :: unescapeByte c rest else a :: unescapeByte c (b :: rest)

/-- The loop over escape codes. The source skips a code that does not occur, for which
    the replacement changes nothing. -/
def escape (codes s : Bytes) : Bytes := codes.foldl (fun s c => escapeByte c s) s

/-- `EscapeMeasurement`. -/
def escapeMeasurement (s : Bytes) : Bytes := escape measurementEscapeCodes s

/-- `escapeTag`. -/
def escapeTag (s : Bytes) : Bytes := escape tagEscapeCodes s

/-- `unescapeMeasurement`. -/
def unescapeMeasurement (s : Bytes) : Bytes :=
  if backslash ∈ s then
    measurementEscapeCodes.foldl (fun s c => if c ∈ s then unescapeByte c s else s) s
  else s

/-- One tag in `AppendHashKey`: a tag with an empty value is skipped. -/
def hashTag (t : Bytes × Bytes) : Bytes :=
  if escapeTag t.2 = [] then [] else 44 :: escapeTag t.1 ++ 61 :: escapeTag t.2

/-- `Tags.HashKey`. -/
def Tags.hashKey (tags : Tags) : Bytes := tags.flatMap hashTag

/-- `MakeKey`. -/
def makeKey (name : Bytes) (tags : Tags) : Bytes :=
  escapeMeasurement (unescapeMeasurement name) ++ tags.hashKey

/-! ## Points -/

/-- `MinNanoTime`. -/
def minNanoTime : ℤ := -2 ^ 63 + 2

/-- `MaxNanoTime`. -/
def maxNanoTime : ℤ := 2 ^ 63 - 2

/-- The zero `time.Time`, the first day of year 1, in nanoseconds since the epoch. -/
def zeroTime : ℤ := -62135596800 * 10 ^ 9

/-- `CheckTime` of a time in nanoseconds since the epoch. -/
def checkTime (t : ℤ) : Option Bytes :=
  if t < minNanoTime ∨ maxNanoTime < t then
    some (lit "time outside range -9223372036854775806 - 9223372036854775806")
  else none

/-- `MaxKeyLength`. -/
def maxKeyLength : ℕ := 65535

/-- `seriesKeySize`. -/
def seriesKeySize (key field : Bytes) : ℕ := key.length + 4 + field.length

/-- The body of the loop over the fields in `pointKey`. -/
def fieldError (field : Bytes × FieldValue) : Option Bytes :=
  match field.2 with
  | .float v =>
    if isInf v then some (lit "+/-Inf is an unsupported value for field " ++ field.1)
    else if isNaN v then some (lit "NaN is an unsupported value for field " ++ field.1)
    else if field.1 = [] then some (lit "all fields must have non-empty names")
    else none
  | .string _ =>
    if field.1 = [] then some (lit "all fields must have non-empty names") else none

/-- The error of a key that is too long. -/
def maxKeyError (size : ℕ) : Bytes :=
  lit "max key length exceeded: " ++ lit size.repr ++ lit " > " ++ lit maxKeyLength.repr

/-- `pointKey`. -/
def pointKey (measurement : Bytes) (tags : Tags) (fields : Fields) (t : ℤ) :
    Except Bytes Bytes :=
  if fields.pairs = [] then .error (lit "point without fields is unsupported")
  else
    match if t = zeroTime then none else checkTime t with
    | some err => .error err
    | none =>
      match fields.pairs.findSome? fieldError with
      | some err => .error err
      | none =>
        let key := makeKey measurement tags
        match fields.pairs.find? fun f => maxKeyLength < seriesKeySize key f.1 with
        | some f => .error (maxKeyError (seriesKeySize key f.1))
        | none => .ok key

/-- `models.point`; the fields are kept as a map and not marshalled. -/
structure Point where
  key : Bytes
  time : ℤ
  fields : Fields
  deriving DecidableEq

/-- `NewPoint`. -/
def newPoint (name : Bytes) (tags : Tags) (fields : Fields) (t : ℤ) : Except Bytes Point :=
  match pointKey name tags fields t with
  | .error err => .error err
  | .ok key => .ok ⟨key, t, fields⟩

/-! ## The length of a series key -/

/-- The length of `s` once each byte of `codes` in it has a backslash before it. -/
def escapedLength (codes s : Bytes) : ℕ := s.length + (codes.map fun c => s.count c).sum

theorem length_escapeByte (c : UInt8) (s : Bytes) :
    (escapeByte c s).length = s.length + s.count c := by
  induction s with
  | nil => rfl
  | cons b s ih =>
    simp only [escapeByte, List.flatMap_cons, List.length_append, List.length_cons,
      List.count_cons] at ih ⊢
    rw [ih]
    by_cases hb : b = c
    · simp [hb]; omega
    · simp [hb]; omega

theorem count_escapeByte {c' : UInt8} (h : c' ≠ backslash) (c : UInt8) (s : Bytes) :
    (escapeByte c s).count c' = s.count c' := by
  induction s with
  | nil => rfl
  | cons b s ih =>
    simp only [escapeByte, List.flatMap_cons, List.count_append, List.count_cons] at ih ⊢
    rw [ih]
    by_cases hb : b = c
    · subst hb
      rw [if_pos rfl]
      simp [List.count_cons, Ne.symm h]; omega
    · rw [if_neg hb]
      simp [List.count_cons]; omega

theorem length_escape {codes : Bytes} (h : backslash ∉ codes) (s : Bytes) :
    (escape codes s).length = escapedLength codes s := by
  induction codes generalizing s with
  | nil => rfl
  | cons c codes ih =>
    rw [List.mem_cons, not_or] at h
    have hcounts : codes.map (fun c' => (escapeByte c s).count c')
        = codes.map fun c' => s.count c' := by
      refine List.map_congr_left fun c' hc' => count_escapeByte ?_ c s
      rintro rfl
      exact h.2 hc'
    have hstep := ih h.2 (escapeByte c s)
    unfold escapedLength at hstep ⊢
    rw [hcounts, length_escapeByte] at hstep
    rw [List.map_cons, List.sum_cons]
    change (escape codes (escapeByte c s)).length = _
    omega

theorem length_escapeTag (s : Bytes) : (escapeTag s).length = escapedLength tagEscapeCodes s :=
  length_escape (by decide) s

theorem escapeTag_eq_nil_iff (s : Bytes) : escapeTag s = [] ↔ s = [] := by
  constructor
  · intro h
    have hlen := length_escapeTag s
    rw [h] at hlen
    exact List.length_eq_zero_iff.1 (by simp [escapedLength] at hlen; omega)
  · rintro rfl; rfl

/-- What a tag adds to the key. -/
def tagSize (t : Bytes × Bytes) : ℕ :=
  if t.2 = [] then 0
  else 2 + escapedLength tagEscapeCodes t.1 + escapedLength tagEscapeCodes t.2

/-- The length of the key of a measurement name and tags in any order. -/
def keySize (name : Bytes) (tags : Tags) : ℕ :=
  escapedLength measurementEscapeCodes (unescapeMeasurement name) + (tags.map tagSize).sum

theorem length_hashTag (t : Bytes × Bytes) : (hashTag t).length = tagSize t := by
  unfold hashTag tagSize
  by_cases ht : t.2 = []
  · rw [if_pos ht, if_pos ((escapeTag_eq_nil_iff _).2 ht)]
    rfl
  · rw [if_neg ht, if_neg fun h => ht ((escapeTag_eq_nil_iff _).1 h)]
    simp only [List.cons_append, List.length_cons, List.length_append, length_escapeTag]
    omega

/-- **The length of a series key.** -/
theorem length_makeKey (name : Bytes) (tags : Tags) :
    (makeKey name tags).length = keySize name tags := by
  unfold makeKey keySize Tags.hashKey
  rw [List.length_append, List.length_flatMap, funext length_hashTag]
  congr 1
  exact length_escape (by decide) _

theorem keySize_perm (name : Bytes) {tags tags' : Tags} (h : tags.Perm tags') :
    keySize name tags = keySize name tags' := by
  unfold keySize
  rw [(h.map tagSize).sum_eq]

theorem Tags.set_perm {tags : Tags} {key : Bytes} (h : key ∉ tags.map Prod.fst) (value : Bytes) :
    (tags.set key value).Perm ((key, value) :: tags) := by
  have hnone : (tags.findIdx? fun t => decide (t.1 = key)) = none := by
    rw [List.findIdx?_eq_none_iff]
    intro t ht
    refine decide_eq_false fun hk => h ?_
    exact List.mem_map.2 ⟨t, ht, hk⟩
  unfold Tags.set
  rw [hnone]
  exact (List.perm_insertionSort _ _).trans (List.perm_append_singleton _ _)

/-! ## When `NewPoint` succeeds -/

/-- A float that is neither NaN nor infinite. -/
def FieldValue.Finite : FieldValue → Prop
  | .float v => isInf v = false ∧ isNaN v = false
  | .string _ => True

theorem checkTime_eq_none_iff (t : ℤ) :
    checkTime t = none ↔ minNanoTime ≤ t ∧ t ≤ maxNanoTime := by
  unfold checkTime
  split <;> simp <;> omega

theorem fieldError_eq_none_iff (f : Bytes × FieldValue) :
    fieldError f = none ↔ f.2.Finite ∧ f.1 ≠ [] := by
  obtain ⟨name, v⟩ := f
  cases v with
  | float v =>
    simp only [fieldError, FieldValue.Finite]
    cases isInf v <;> cases isNaN v <;> simp
  | string s => simp [fieldError, FieldValue.Finite]

/-- What `NewPoint` asks of a point: a field, a time in range, finite fields with names,
    and a key that is not too long with any of them. -/
def Acceptable (name : Bytes) (tags : Tags) (fields : Fields) (t : ℤ) : Prop :=
  fields.pairs ≠ [] ∧ (minNanoTime ≤ t ∧ t ≤ maxNanoTime) ∧
    (∀ f ∈ fields.pairs, f.2.Finite ∧ f.1 ≠ []) ∧
    ∀ f ∈ fields.pairs, keySize name tags + 4 + f.1.length ≤ maxKeyLength

theorem pointKey_ok_iff {name : Bytes} {tags : Tags} {fields : Fields} {t : ℤ}
    (ht : t ≠ zeroTime) :
    (∃ key, pointKey name tags fields t = .ok key) ↔ Acceptable name tags fields t := by
  have hfinite : fields.pairs.findSome? fieldError = none ↔
      ∀ f ∈ fields.pairs, f.2.Finite ∧ f.1 ≠ [] := by
    rw [List.findSome?_eq_none_iff]
    simp only [fieldError_eq_none_iff]
  have hsize : (fields.pairs.find? fun f =>
        decide (maxKeyLength < seriesKeySize (makeKey name tags) f.1)) = none ↔
      ∀ f ∈ fields.pairs, keySize name tags + 4 + f.1.length ≤ maxKeyLength := by
    rw [List.find?_eq_none]
    simp only [seriesKeySize, length_makeKey, decide_eq_true_eq, not_lt]
  unfold Acceptable pointKey
  rw [← checkTime_eq_none_iff, ← hfinite, ← hsize]
  rw [if_neg ht]
  by_cases hnil : fields.pairs = []
  · rw [if_pos hnil]; simp [hnil]
  · rw [if_neg hnil]
    cases checkTime t with
    | some err => simp
    | none =>
      cases fields.pairs.findSome? fieldError with
      | some err => simp
      | none =>
        dsimp only
        cases fields.pairs.find? fun f =>
          decide (maxKeyLength < seriesKeySize (makeKey name tags) f.1) with
        | some f => simp
        | none => simp [hnil]

/-- **When `NewPoint` succeeds**, for a time other than the zero `time.Time`. -/
theorem newPoint_ok_iff {name : Bytes} {tags : Tags} {fields : Fields} {t : ℤ}
    (ht : t ≠ zeroTime) :
    (∃ p, newPoint name tags fields t = .ok p) ↔ Acceptable name tags fields t := by
  rw [← pointKey_ok_iff ht]
  unfold newPoint
  cases pointKey name tags fields t with
  | error err => simp
  | ok key => simp

end MetricStore.Influx
