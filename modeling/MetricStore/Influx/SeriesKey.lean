import MetricStore.Common.Scan
import MetricStore.Influx.Point

/-!
# Reading series keys

Model of how the database reads the series key of a point: its `Name` and `Tags`
(`models/points.go` of the vendored `influxdb`, lines 1464–1501, 1524–1562 and 1591–1618, with
`scanTo`, `scanTagValue` and `unescapeTag`, lines 1150–1283), `Unescape` (`pkg/escape/bytes.go`,
lines 70–115), and `WalkTags` (`tsdb/engine/tsm1/engine_additions.go`, lines 23–125), which
makes the labels of the series of a query.

`MakeKey` puts a backslash before a comma, a space or an equals sign, and none before a
backslash. So a name or a value that ends in a backslash hides the sign after it. `walkTags` and
`WalkTags` have the same loop, on the bytes that are left, with the byte before them.

Results:
* `unescapeTag_escapeTag`: every text is read back.
* `walkLoop_hashKey_iff`: the tags are read back exactly if no name, and no value but the last,
  ends in a backslash.
* `hashKey_walkLoop_iff`: if no name ends in one, the tags that are read have the same key
  again exactly if they are the same tags.
* `readable_walkLoop`: tags that are read from any key are read back from their own.
-/

namespace MetricStore.Influx

open MetricStore.Common

/-! ## Model -/

/-- The comma. -/
def comma : UInt8 := 44

/-- The equals sign. -/
def equals : UInt8 := 61

/-- `scanTo`, and `scanTagValue` for the comma: what is before the first `stop` without a
    backslash before it, and the rest from there. -/
def scanTo (stop : UInt8) (prev : Option UInt8) (rest : Bytes) : Bytes × Bytes :=
  Scan.scan backslash stop prev rest

theorem length_scanTo_le {stop : UInt8} {prev : Option UInt8} {rest : Bytes} :
    (scanTo stop prev rest).2.length ≤ rest.length :=
  Scan.length_scan_snd_le

theorem length_tail_scanTo_lt {stop : UInt8} {prev : Option UInt8} {rest : Bytes}
    (h : (scanTo stop prev rest).2 ≠ []) : (scanTo stop prev rest).2.tail.length < rest.length := by
  have hle : (scanTo stop prev rest).2.length ≤ rest.length := length_scanTo_le
  have hpos := List.length_pos_iff.mpr h
  rw [List.length_tail]
  omega

/-- `unescapeTag`. -/
def unescapeTag (s : Bytes) : Bytes :=
  if backslash ∈ s then
    tagEscapeCodes.foldl (fun s c => if c ∈ s then unescapeByte c s else s) s
  else s

/-- The loop of `walkTags`. A tag without a value is skipped; the next one then starts at the
    comma. If the whole key has no backslash, the source does not unescape, which changes
    nothing. -/
def walkLoop (prev : UInt8) (rest : Bytes) : Tags :=
  let key := scanTo equals (some prev) rest
  if _ : key.2 = [] then []
  else
    let value := scanTo comma (some equals) key.2.tail
    if value.1 = [] then walkLoop equals value.2
    else (unescapeTag key.1, unescapeTag value.1) :: walkLoop comma value.2.tail
termination_by rest.length
decreasing_by
  · exact length_scanTo_le.trans_lt (length_tail_scanTo_lt ‹_›)
  · exact (List.tail_sublist _).length_le.trans_lt
      (length_scanTo_le.trans_lt (length_tail_scanTo_lt ‹_›))

/-- `walkTags` with a function that collects the tags. -/
def walkTags (buf : Bytes) : Tags :=
  let name := scanTo comma none buf
  if name.1 = [] then [] else walkLoop comma name.2.tail

/-- `escapeChars` of `Unescape`: also the quote. -/
def escapeChars : Bytes := [44, 34, 32, 61]

/-- `Unescape`. -/
def unescape : Bytes → Bytes
  | [] => []
  | [b] => [b]
  | a :: b :: rest =>
    if a = backslash ∧ b ∈ escapeChars then b :: unescape rest else a :: unescape (b :: rest)

/-- `Name` of a point with the key; `walkTags` are its `Tags`. -/
def keyName (key : Bytes) : Bytes := unescape (scanTo comma none key).1

/-- `WalkTags` of the engine: the name is not unescaped. -/
def seriesLabels (buf : Bytes) : Tags :=
  let name := scanTo comma none buf
  if name.1 = [] then [] else (lit "__name__", name.1) :: walkLoop comma name.2.tail

/-! ## Escaping -/

theorem escapeByte_guarded {c : UInt8} {codes : Bytes} (hc : c ∉ codes) (hb : c ≠ backslash)
    (s : Bytes) : escapeByte c (Scan.guarded backslash codes s) =
      Scan.guarded backslash (codes ++ [c]) s := by
  induction s with
  | nil => rfl
  | cons b s ih =>
    unfold escapeByte at ih ⊢
    by_cases hmem : b ∈ codes
    · have hne : b ≠ c := by
        rintro rfl
        exact hc hmem
      rw [Scan.guarded_cons_of_mem hmem,
        Scan.guarded_cons_of_mem (List.mem_append_left _ hmem), List.flatMap_cons,
        List.flatMap_cons, if_neg (Ne.symm hb), if_neg hne, ih]
      rfl
    · rw [Scan.guarded_cons_of_not_mem hmem, List.flatMap_cons, ih]
      by_cases hbc : b = c
      · rw [if_pos hbc, hbc, Scan.guarded_cons_of_mem (by simp)]
        rfl
      · rw [if_neg hbc, Scan.guarded_cons_of_not_mem (by simp [hmem, hbc])]
        rfl

theorem escapeTag_eq (s : Bytes) : escapeTag s = Scan.guarded backslash tagEscapeCodes s := by
  have hnone : s = Scan.guarded backslash [] s := by
    simp [Scan.guarded]
  unfold escapeTag escape tagEscapeCodes
  conv_lhs => rw [hnone]
  simp only [List.foldl_cons, List.foldl_nil]
  rw [escapeByte_guarded (by decide) (by decide), escapeByte_guarded (by decide) (by decide),
    escapeByte_guarded (by decide) (by decide)]
  rfl

theorem unescapeByte_of_not_mem {c : UInt8} {s : Bytes} (h : c ∉ s) : unescapeByte c s = s := by
  fun_induction unescapeByte c s with
  | case1 => rfl
  | case2 => rfl
  | case3 a b rest hab ih =>
    exact absurd (by simp [hab.2]) h
  | case4 a b rest hab ih => rw [ih fun hmem => h (List.mem_cons_of_mem _ hmem)]

theorem unescapeByte_of_no_backslash {c : UInt8} {s : Bytes} (h : backslash ∉ s) :
    unescapeByte c s = s := by
  fun_induction unescapeByte c s with
  | case1 => rfl
  | case2 => rfl
  | case3 a b rest hab ih => exact absurd (by simp [hab.1]) h
  | case4 a b rest hab ih => rw [ih fun hmem => h (List.mem_cons_of_mem _ hmem)]

/-- The tests of `unescapeTag` save work only. -/
theorem unescapeTag_eq (s : Bytes) :
    unescapeTag s = tagEscapeCodes.foldl (fun s c => unescapeByte c s) s := by
  have hstep : (fun (s : Bytes) c => if c ∈ s then unescapeByte c s else s) =
      fun s c => unescapeByte c s := by
    funext s c
    split_ifs with hmem
    · rfl
    · rw [unescapeByte_of_not_mem hmem]
  unfold unescapeTag
  rw [hstep]
  split_ifs with hmem
  · rfl
  · simp only [tagEscapeCodes, List.foldl_cons, List.foldl_nil,
      unescapeByte_of_no_backslash hmem]

/-- A byte that is not followed by the escaped one stays. -/
theorem unescapeByte_cons {c b : UInt8} {s : Bytes} (h : b = backslash → s.head? ≠ some c) :
    unescapeByte c (b :: s) = b :: unescapeByte c s := by
  cases s with
  | nil => rfl
  | cons d s =>
    rw [unescapeByte, if_neg]
    rintro ⟨hb, rfl⟩
    exact h hb rfl

theorem unescapeByte_guarded {c : UInt8} {codes : Bytes} (hc : c ∉ codes)
    (hb : backslash ∉ c :: codes) (s : Bytes) :
    unescapeByte c (Scan.guarded backslash (c :: codes) s) = Scan.guarded backslash codes s := by
  rw [List.mem_cons, not_or] at hb
  -- what follows a backslash of the text does not start with the byte itself
  have hhead : ∀ s : Bytes, (Scan.guarded backslash (c :: codes) s).head? ≠ some c := by
    intro s hs
    have hnot : backslash ∉ c :: codes := by simpa using hb
    exact Scan.head?_guarded hnot hs List.mem_cons_self
  induction s with
  | nil => rfl
  | cons b s ih =>
    by_cases hbc : b = c
    · subst hbc
      rw [Scan.guarded_cons_of_mem List.mem_cons_self, Scan.guarded_cons_of_not_mem hc,
        unescapeByte, if_pos ⟨rfl, rfl⟩, ih]
    by_cases hmem : b ∈ codes
    · have hne : b ≠ backslash := by
        rintro rfl
        exact hb.2 hmem
      rw [Scan.guarded_cons_of_mem (List.mem_cons_of_mem _ hmem), Scan.guarded_cons_of_mem hmem,
        unescapeByte_cons (by simp [hbc]), unescapeByte_cons fun h => absurd h hne, ih]
    · rw [Scan.guarded_cons_of_not_mem (by simp [hbc, hmem]),
        Scan.guarded_cons_of_not_mem hmem, unescapeByte_cons fun _ => hhead s, ih]

/-- **Every text is read back.** -/
theorem unescapeTag_escapeTag (s : Bytes) : unescapeTag (escapeTag s) = s := by
  rw [escapeTag_eq, unescapeTag_eq]
  unfold tagEscapeCodes
  simp only [List.foldl_cons, List.foldl_nil]
  rw [unescapeByte_guarded (by decide) (by decide), unescapeByte_guarded (by decide) (by decide),
    unescapeByte_guarded (by decide) (by decide)]
  simp [Scan.guarded]

/-! ## Reading tags -/

/-- The text ends in a backslash. -/
def EndsInBackslash (s : Bytes) : Prop := s.getLast? = some backslash

instance (s : Bytes) : Decidable (EndsInBackslash s) := inferInstanceAs (Decidable (_ = _))

/-- Tags that are read back: no name, and no value but the last, ends in a backslash. -/
structure Readable (tags : Tags) : Prop where
  names : ∀ t ∈ tags, ¬ EndsInBackslash t.1
  values : ∀ t ∈ tags.dropLast, ¬ EndsInBackslash t.2

instance (tags : Tags) : Decidable (Readable tags) :=
  decidable_of_iff
    ((∀ t ∈ tags, ¬ EndsInBackslash t.1) ∧ ∀ t ∈ tags.dropLast, ¬ EndsInBackslash t.2)
    ⟨fun h => ⟨h.1, h.2⟩, fun h => ⟨h.names, h.values⟩⟩

/-- The signs of the key without a backslash before them, for one of the two delimiters. -/
abbrev bare (stop : UInt8) (prev : Option UInt8) (s : Bytes) : ℕ :=
  Scan.bare backslash stop prev s

theorem last_escapeTag {b : UInt8} (h : b ≠ backslash) (s : Bytes) :
    Scan.last (some b) (escapeTag s) = some backslash ↔ EndsInBackslash s := by
  rw [escapeTag_eq, Scan.last_guarded, Scan.last_eq_some_iff h]
  rfl

theorem bare_escapeTag {stop : UInt8} (h : stop ∈ tagEscapeCodes) (prev : Option UInt8)
    (s : Bytes) : bare stop prev (escapeTag s) = 0 := by
  rw [escapeTag_eq]
  exact Scan.bare_guarded (by decide) h

theorem hashTag_of_ne_nil {t : Bytes × Bytes} (h : t.2 ≠ []) :
    hashTag t = comma :: (escapeTag t.1 ++ equals :: escapeTag t.2) :=
  if_neg fun hnil => h ((escapeTag_eq_nil_iff _).1 hnil)

/-- Each equals sign of a key is in a name or in a value, where it is hidden, or after a name,
    where the end of the name may hide it. -/
theorem bare_equals_hashKey (prev : Option UInt8) (tags : Tags) :
    bare equals prev (Tags.hashKey tags) =
      tags.countP fun t => t.2 ≠ [] ∧ ¬ EndsInBackslash t.1 := by
  induction tags generalizing prev with
  | nil => rfl
  | cons t tags ih =>
    show bare equals prev (hashTag t ++ Tags.hashKey tags) = _
    by_cases ht : t.2 = []
    · have hskip : hashTag t = [] := if_pos ((escapeTag_eq_nil_iff _).2 ht)
      rw [hskip, List.nil_append, ih, List.countP_cons_of_neg (by simp [ht])]
    have hkey : bare equals (some comma) (escapeTag t.1) = 0 := bare_escapeTag (by decide) _ _
    have hvalue : bare equals (some equals) (escapeTag t.2) = 0 := bare_escapeTag (by decide) _ _
    have hlast := last_escapeTag (show comma ≠ backslash by decide) t.1
    rw [hashTag_of_ne_nil ht]
    simp only [bare] at *
    rw [Scan.bare_append, ih, Scan.bare_cons_of_ne (by decide), Scan.bare_append, hkey,
      Scan.bare, hvalue, List.countP_cons]
    by_cases hend : EndsInBackslash t.1
    · simp [ht, hend, hlast.mpr hend]
    · have hbare := mt hlast.mp hend
      simp [ht, hend, hbare]
      omega

/-- The first comma does not matter. -/
theorem bare_equals_tail_hashKey (prev : Option UInt8) {tags : Tags}
    (hvalues : ∀ t ∈ tags, t.2 ≠ []) :
    bare equals (some comma) (Tags.hashKey tags).tail = bare equals prev (Tags.hashKey tags) := by
  cases tags with
  | nil => rfl
  | cons t tags =>
    have ht := hvalues t List.mem_cons_self
    show bare equals (some comma) (hashTag t ++ Tags.hashKey tags).tail =
      bare equals prev (hashTag t ++ Tags.hashKey tags)
    rw [hashTag_of_ne_nil ht, List.cons_append, List.tail_cons]
    exact (Scan.bare_cons_of_ne (by decide)).symm

/-- Each tag that is read takes a bare equals sign. -/
theorem length_walkLoop_le (prev : UInt8) (rest : Bytes) :
    (walkLoop prev rest).length ≤ bare equals (some prev) rest := by
  fun_induction walkLoop prev rest with
  | case1 prev rest key hend => exact Nat.zero_le _
  | case2 prev rest key hend value hvalue ih =>
    have hkey : bare equals (some prev) rest = 1 + bare equals (some equals) key.2.tail :=
      Scan.bare_eq_scan hend
    have hskip : key.2.tail = value.1 ++ value.2 := (Scan.scan_fst_append_snd _ _ _ _).symm
    rw [hvalue, List.nil_append] at hskip
    rw [hkey, hskip]
    omega
  | case3 prev rest key hend value hvalue ih =>
    have hkey : bare equals (some prev) rest = 1 + bare equals (some equals) key.2.tail :=
      Scan.bare_eq_scan hend
    have hrest : bare equals (some equals) key.2.tail =
        bare equals (some equals) value.1 + bare equals (some comma) value.2.tail :=
      Scan.bare_eq_add_scan (by decide)
    rw [List.length_cons]
    omega

/-- The first tag, up to the comma after its value, which the end of the value may hide. -/
theorem walkLoop_cons {t : Bytes × Bytes} (hname : ¬ EndsInBackslash t.1) (hvalue : t.2 ≠ [])
    (rest : Bytes) :
    walkLoop comma (escapeTag t.1 ++ equals :: (escapeTag t.2 ++ rest)) =
      let next := scanTo comma (Scan.last (some equals) (escapeTag t.2)) rest
      (t.1, unescapeTag (escapeTag t.2 ++ next.1)) :: walkLoop comma next.2.tail := by
  have hlast := mt (last_escapeTag (show comma ≠ backslash by decide) t.1).mp hname
  have hkey : scanTo equals (some comma) (escapeTag t.1 ++ equals :: (escapeTag t.2 ++ rest)) =
      (escapeTag t.1, equals :: (escapeTag t.2 ++ rest)) := by
    unfold scanTo
    rw [Scan.scan_append (bare_escapeTag (by decide) _ _), Scan.scan_stop hlast, List.append_nil]
  have hnext : scanTo comma (some equals) (escapeTag t.2 ++ rest) =
      (escapeTag t.2 ++ (scanTo comma (Scan.last (some equals) (escapeTag t.2)) rest).1,
        (scanTo comma (Scan.last (some equals) (escapeTag t.2)) rest).2) :=
    Scan.scan_append (bare_escapeTag (by decide) _ _)
  have hne : escapeTag t.2 ≠ [] := mt (escapeTag_eq_nil_iff _).1 hvalue
  rw [walkLoop]
  simp only [hkey, List.tail_cons, hnext, List.append_eq_nil_iff, hne, false_and, if_false,
    unescapeTag_escapeTag, List.cons_ne_nil, dif_neg, not_false_eq_true]

theorem tail_hashKey_cons {t : Bytes × Bytes} (h : t.2 ≠ []) (tags : Tags) :
    (Tags.hashKey (t :: tags)).tail =
      escapeTag t.1 ++ equals :: (escapeTag t.2 ++ Tags.hashKey tags) := by
  show (hashTag t ++ Tags.hashKey tags).tail = _
  rw [hashTag_of_ne_nil h]
  simp

/-- The tag is read if its value is the last one or does not hide the comma after it. -/
theorem walkLoop_hashKey_cons {t : Bytes × Bytes} (hname : ¬ EndsInBackslash t.1)
    (hvalue : t.2 ≠ []) {tags : Tags} (hvalues : ∀ u ∈ tags, u.2 ≠ [])
    (h : tags = [] ∨ ¬ EndsInBackslash t.2) :
    walkLoop comma (Tags.hashKey (t :: tags)).tail =
      t :: walkLoop comma (Tags.hashKey tags).tail := by
  have hstop : scanTo comma (Scan.last (some equals) (escapeTag t.2)) (Tags.hashKey tags) =
      ([], Tags.hashKey tags) := by
    cases tags with
    | nil => rfl
    | cons u tags =>
      have hlast := mt (last_escapeTag (show equals ≠ backslash by decide) t.2).mp
        (h.resolve_left (List.cons_ne_nil _ _))
      have hu := hvalues u List.mem_cons_self
      show Scan.scan backslash comma _ (hashTag u ++ Tags.hashKey tags) = ([], hashTag u ++ _)
      rw [hashTag_of_ne_nil hu]
      exact Scan.scan_stop hlast
  rw [tail_hashKey_cons hvalue, walkLoop_cons hname hvalue]
  simp only [hstop, List.append_nil, unescapeTag_escapeTag]

/-- A value that hides the comma after it takes the next tag with it, and its equals sign. -/
theorem length_walkLoop_lt {t u : Bytes × Bytes} {tags : Tags}
    (hnames : ∀ e ∈ t :: u :: tags, ¬ EndsInBackslash e.1)
    (hvalues : ∀ e ∈ t :: u :: tags, e.2 ≠ []) (hend : EndsInBackslash t.2) :
    (walkLoop comma (Tags.hashKey (t :: u :: tags)).tail).length < (t :: u :: tags).length := by
  have hlast := (last_escapeTag (show equals ≠ backslash by decide) t.2).mpr hend
  have hu : u.2 ≠ [] := hvalues u (by simp)
  -- the scan for the comma runs through the next tag
  have hhidden : bare comma (some backslash) (hashTag u) = 0 := by
    have hkey : bare comma (some comma) (escapeTag u.1) = 0 := bare_escapeTag (by decide) _ _
    have hvalue : bare comma (some equals) (escapeTag u.2) = 0 := bare_escapeTag (by decide) _ _
    rw [hashTag_of_ne_nil hu]
    simp only [bare] at *
    rw [Scan.bare, Scan.bare_append, hkey, Scan.bare_cons_of_ne (by decide), hvalue]
    simp
  have hnext := Scan.scan_append (t := Tags.hashKey tags) hhidden
  -- and so over a bare equals sign
  have hsign : bare equals (some backslash) (hashTag u) = 1 := by
    have hcount := bare_equals_hashKey (some backslash) [u]
    rw [List.countP_cons_of_pos (by simp [hu, hnames u (by simp)])] at hcount
    simpa [Tags.hashKey] using hcount
  have hall : bare equals (some backslash) (Tags.hashKey (u :: tags)) = (u :: tags).length := by
    rw [bare_equals_hashKey, List.countP_eq_length]
    intro e he
    simp [hvalues e (List.mem_cons_of_mem _ he), hnames e (List.mem_cons_of_mem _ he)]
  have hsplit : bare equals (some backslash) (Tags.hashKey (u :: tags)) =
      bare equals (some backslash) (scanTo comma (some backslash) (Tags.hashKey (u :: tags))).1 +
        bare equals (some comma)
          (scanTo comma (some backslash) (Tags.hashKey (u :: tags))).2.tail :=
    Scan.bare_eq_add_scan (by decide)
  have hover : 1 ≤ bare equals (some backslash)
      (scanTo comma (some backslash) (Tags.hashKey (u :: tags))).1 := by
    show 1 ≤ bare equals _ (Scan.scan backslash comma _ (hashTag u ++ Tags.hashKey tags)).1
    rw [hnext]
    simp only [bare] at *
    rw [Scan.bare_append, hsign]
    omega
  have hrest := length_walkLoop_le comma
    (scanTo comma (some backslash) (Tags.hashKey (u :: tags))).2.tail
  rw [tail_hashKey_cons (hvalues t List.mem_cons_self),
    walkLoop_cons (hnames t List.mem_cons_self) (hvalues t List.mem_cons_self), hlast]
  simp only [List.length_cons] at *
  omega

theorem Readable.of_cons {t : Bytes × Bytes} {tags : Tags} (h : Readable (t :: tags)) :
    ¬ EndsInBackslash t.1 ∧ (tags = [] ∨ ¬ EndsInBackslash t.2) ∧ Readable tags := by
  refine ⟨h.names t List.mem_cons_self, ?_, fun u hu => h.names u (List.mem_cons_of_mem _ hu), ?_⟩
  · cases tags with
    | nil => exact .inl rfl
    | cons u tags => exact .inr (h.values t (by simp))
  · cases tags with
    | nil => simp
    | cons u tags => exact fun e he => h.values e (by simp [he])

theorem walkLoop_hashKey {tags : Tags} (hvalues : ∀ t ∈ tags, t.2 ≠ []) (h : Readable tags) :
    walkLoop comma (Tags.hashKey tags).tail = tags := by
  induction tags with
  | nil =>
    rw [walkLoop]
    rfl
  | cons t tags ih =>
    obtain ⟨hname, hend, hread⟩ := h.of_cons
    obtain ⟨ht, hvalues⟩ := List.forall_mem_cons.mp hvalues
    rw [walkLoop_hashKey_cons hname ht hvalues hend, ih hvalues hread]

/-- As many tags as there are, only if no value hides a comma. -/
theorem values_of_length_walkLoop {tags : Tags} (hnames : ∀ t ∈ tags, ¬ EndsInBackslash t.1)
    (hvalues : ∀ t ∈ tags, t.2 ≠ [])
    (h : (walkLoop comma (Tags.hashKey tags).tail).length = tags.length) : Readable tags := by
  refine ⟨hnames, ?_⟩
  induction tags with
  | nil => simp
  | cons t tags ih =>
    cases tags with
    | nil => simp
    | cons u tags =>
      have hend : ¬ EndsInBackslash t.2 := by
        intro hend
        have hlt := length_walkLoop_lt hnames hvalues hend
        omega
      obtain ⟨hname, hnames⟩ := List.forall_mem_cons.mp hnames
      obtain ⟨ht, hvalues⟩ := List.forall_mem_cons.mp hvalues
      rw [walkLoop_hashKey_cons hname ht hvalues (.inr hend)] at h
      rw [List.dropLast_cons_cons]
      exact List.forall_mem_cons.mpr ⟨hend, ih hnames hvalues (Nat.succ_injective h)⟩

/-- **When the tags of a key are read back.** -/
theorem walkLoop_hashKey_iff {tags : Tags} (hvalues : ∀ t ∈ tags, t.2 ≠ []) :
    walkLoop comma (Tags.hashKey tags).tail = tags ↔ Readable tags := by
  refine ⟨fun h => ?_, walkLoop_hashKey hvalues⟩
  have hlength : (walkLoop comma (Tags.hashKey tags).tail).length = tags.length := by rw [h]
  -- every tag that is read takes an equals sign that no name hides
  have hle := length_walkLoop_le comma (Tags.hashKey tags).tail
  rw [bare_equals_tail_hashKey none hvalues, bare_equals_hashKey, hlength] at hle
  have hall := List.countP_eq_length.mp (le_antisymm List.countP_le_length hle)
  refine values_of_length_walkLoop (fun t ht => ?_) hvalues hlength
  have hname := hall t ht
  simp only [ne_eq, decide_eq_true_eq] at hname
  exact hname.2

/-- **When the tags that are read have the same key again.** -/
theorem hashKey_walkLoop_iff {tags : Tags} (hnames : ∀ t ∈ tags, ¬ EndsInBackslash t.1)
    (hvalues : ∀ t ∈ tags, t.2 ≠ []) :
    Tags.hashKey (walkLoop comma (Tags.hashKey tags).tail) = Tags.hashKey tags ↔
      Readable tags := by
  refine ⟨fun h => ?_, fun h => by rw [walkLoop_hashKey hvalues h]⟩
  have hcount : bare equals none (Tags.hashKey tags) = tags.length := by
    rw [bare_equals_hashKey, List.countP_eq_length]
    intro t ht
    simp [hvalues t ht, hnames t ht]
  have hle := length_walkLoop_le comma (Tags.hashKey tags).tail
  rw [bare_equals_tail_hashKey none hvalues, hcount] at hle
  -- the key has no more bare equals signs than tags that were read
  have hge : tags.length ≤ (walkLoop comma (Tags.hashKey tags).tail).length := by
    have hread := bare_equals_hashKey none (walkLoop comma (Tags.hashKey tags).tail)
    rw [h, hcount] at hread
    rw [hread]
    exact List.countP_le_length
  exact values_of_length_walkLoop hnames hvalues (le_antisymm hle hge)

/-! ## Tags that can be read -/

theorem getLast?_unescapeByte (c : UInt8) (s : Bytes) :
    (unescapeByte c s).getLast? = s.getLast? := by
  fun_induction unescapeByte c s with
  | case1 => rfl
  | case2 => rfl
  | case3 a b rest hab ih => simp [List.getLast?_cons, ih, hab.2]
  | case4 a b rest hab ih => simp [List.getLast?_cons, ih]

/-- A text ends as before when it is unescaped. -/
theorem getLast?_unescapeTag (s : Bytes) : (unescapeTag s).getLast? = s.getLast? := by
  have hfold : ∀ (codes s : Bytes),
      (codes.foldl (fun s c => if c ∈ s then unescapeByte c s else s) s).getLast? =
        s.getLast? := by
    intro codes
    induction codes with
    | nil => exact fun s => rfl
    | cons c codes ih =>
      intro s
      rw [List.foldl_cons, ih]
      split_ifs
      · exact getLast?_unescapeByte c s
      · rfl
  unfold unescapeTag
  split_ifs
  · exact hfold _ s
  · rfl

/-- What is read up to a sign does not end in a backslash. -/
theorem not_endsInBackslash_scanTo {stop prev : UInt8} {rest : Bytes} (h : prev ≠ backslash)
    (hstop : (scanTo stop (some prev) rest).2 ≠ []) :
    ¬ EndsInBackslash (unescapeTag (scanTo stop (some prev) rest).1) := by
  obtain hnil | ⟨t, -, hlast⟩ := Scan.scan_snd_cases backslash stop (some prev) rest
  · exact absurd hnil hstop
  · unfold EndsInBackslash
    rw [getLast?_unescapeTag, ← Scan.last_eq_some_iff h]
    exact hlast

/-- **Tags that were read can be read again**, whatever the key was. -/
theorem readable_walkLoop {prev : UInt8} (h : prev ≠ backslash) (rest : Bytes) :
    Readable (walkLoop prev rest) := by
  fun_induction walkLoop prev rest with
  | case1 prev rest key hend => exact ⟨by simp, by simp⟩
  | case2 prev rest key hend value hvalue ih => exact ih (by decide)
  | case3 prev rest key hend value hvalue ih =>
    have hread := ih (by decide)
    have hname := not_endsInBackslash_scanTo h hend
    refine ⟨List.forall_mem_cons.mpr ⟨hname, hread.names⟩, ?_⟩
    by_cases hlast : value.2 = []
    · -- the last tag, which may end in anything
      rw [hlast, List.tail_nil, walkLoop]
      exact fun t ht => absurd ht (by simp [scanTo, Scan.scan])
    · have hfirst : ¬ EndsInBackslash (unescapeTag value.1) :=
        not_endsInBackslash_scanTo (by decide) hlast
      generalize walkLoop comma value.2.tail = tags at hread
      cases tags with
      | nil => simp
      | cons t tags => exact List.forall_mem_cons.mpr ⟨hfirst, hread.values⟩

/-! ## The key of a point -/

/-- A name that `MakeKey` takes as it is. -/
structure PlainName (name : Bytes) : Prop where
  ne_nil : name ≠ []
  no_comma : comma ∉ name
  no_space : (32 : UInt8) ∉ name
  no_backslash : backslash ∉ name

instance (name : Bytes) : Decidable (PlainName name) :=
  decidable_of_iff (name ≠ [] ∧ comma ∉ name ∧ (32 : UInt8) ∉ name ∧ backslash ∉ name)
    ⟨fun h => ⟨h.1, h.2.1, h.2.2.1, h.2.2.2⟩,
      fun h => ⟨h.ne_nil, h.no_comma, h.no_space, h.no_backslash⟩⟩

/-- The tags that are in the key. -/
def Tags.indexed (tags : Tags) : Tags := tags.filter fun t => t.2 ≠ []

theorem Tags.value_ne_nil {tags : Tags} {t : Bytes × Bytes} (h : t ∈ tags.indexed) : t.2 ≠ [] := by
  simpa using (List.mem_filter.mp h).2

theorem hashKey_indexed (tags : Tags) : Tags.hashKey tags.indexed = Tags.hashKey tags := by
  induction tags with
  | nil => rfl
  | cons t tags ih =>
    unfold Tags.indexed at ih ⊢
    by_cases ht : t.2 = []
    · have hskip : hashTag t = [] := if_pos ((escapeTag_eq_nil_iff _).2 ht)
      rw [List.filter_cons_of_neg (by simpa using ht), ih]
      show _ = hashTag t ++ Tags.hashKey tags
      rw [hskip, List.nil_append]
    · rw [List.filter_cons_of_pos (by simpa using ht)]
      show hashTag t ++ Tags.hashKey _ = hashTag t ++ Tags.hashKey tags
      rw [ih]

theorem escapeByte_of_not_mem {c : UInt8} {s : Bytes} (h : c ∉ s) : escapeByte c s = s := by
  unfold escapeByte
  induction s with
  | nil => rfl
  | cons b s ih =>
    rw [List.mem_cons, not_or] at h
    rw [List.flatMap_cons, if_neg (Ne.symm h.1), ih h.2]
    rfl

theorem unescape_of_no_backslash {s : Bytes} (h : backslash ∉ s) : unescape s = s := by
  fun_induction unescape s with
  | case1 => rfl
  | case2 => rfl
  | case3 a b rest hab ih => exact absurd (by simp [hab.1]) h
  | case4 a b rest hab ih => rw [ih fun hmem => h (List.mem_cons_of_mem _ hmem)]

namespace PlainName

variable {name : Bytes} (h : PlainName name) (tags : Tags)

include h

theorem makeKey_eq : makeKey name tags = name ++ Tags.hashKey tags := by
  have hunescape : unescapeMeasurement name = name := if_neg h.no_backslash
  have hescape : escapeMeasurement name = name := by
    show escapeByte 32 (escapeByte comma name) = name
    rw [escapeByte_of_not_mem h.no_comma, escapeByte_of_not_mem h.no_space]
  rw [makeKey, hunescape, hescape]

/-- The name of the key ends at the comma of the first tag. -/
theorem scanTo_makeKey : scanTo comma none (makeKey name tags) = (name, Tags.hashKey tags) := by
  have hbare : ∀ (prev : Option UInt8) (s : Bytes), comma ∉ s → bare comma prev s = 0 := by
    intro prev s hs
    induction s generalizing prev with
    | nil => rfl
    | cons b s ih =>
      rw [List.mem_cons, not_or] at hs
      exact (Scan.bare_cons_of_ne (Ne.symm hs.1)).trans (ih _ hs.2)
  have hlast : Scan.last none name ≠ some backslash := by
    rw [Scan.last_eq, Option.or_none]
    exact fun hend => h.no_backslash (List.mem_of_getLast? hend)
  have hstop : scanTo comma (Scan.last none name) (Tags.hashKey tags) =
      ([], Tags.hashKey tags) := by
    rw [← hashKey_indexed]
    cases hindexed : tags.indexed with
    | nil => rfl
    | cons t ts =>
      have ht : t.2 ≠ [] := Tags.value_ne_nil (hindexed ▸ List.mem_cons_self)
      show Scan.scan backslash comma _ (hashTag t ++ Tags.hashKey ts) = ([], hashTag t ++ _)
      rw [hashTag_of_ne_nil ht]
      exact Scan.scan_stop hlast
  rw [h.makeKey_eq]
  unfold scanTo at hstop ⊢
  rw [Scan.scan_append (hbare none name h.no_comma), hstop, List.append_nil]

theorem keyName_makeKey : keyName (makeKey name tags) = name := by
  unfold keyName
  rw [h.scanTo_makeKey]
  exact unescape_of_no_backslash h.no_backslash

theorem walkTags_makeKey :
    walkTags (makeKey name tags) = walkLoop comma (Tags.hashKey tags.indexed).tail := by
  unfold walkTags
  simp only [h.scanTo_makeKey, h.ne_nil, if_false, hashKey_indexed]

theorem seriesLabels_makeKey : seriesLabels (makeKey name tags) =
    (lit "__name__", name) :: walkLoop comma (Tags.hashKey tags.indexed).tail := by
  unfold seriesLabels
  simp only [h.scanTo_makeKey, h.ne_nil, if_false, hashKey_indexed]

/-- The key of the tags that are read. -/
theorem makeKey_walkTags_iff (hnames : ∀ t ∈ tags.indexed, ¬ EndsInBackslash t.1) :
    makeKey name (walkTags (makeKey name tags)) = makeKey name tags ↔ Readable tags.indexed := by
  rw [h.walkTags_makeKey, h.makeKey_eq, h.makeKey_eq, List.append_cancel_left_eq,
    ← hashKey_indexed tags]
  exact hashKey_walkLoop_iff hnames fun _ => Tags.value_ne_nil

end PlainName

end MetricStore.Influx
