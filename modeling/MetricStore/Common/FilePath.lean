import MetricStore.Common.Bytes

/-!
# File paths

`Clean` and `Join` of Go's `path/filepath` on a Unix system. A path is cleaned
component by component: empty components and dots are dropped, and a dot-dot takes the
component before it away, unless there is none or it is a dot-dot itself. At the root a
dot-dot is dropped.

* `join_eq_append`: a path joined with a plain file name ends with that name.
* `components_join`, `stem_join`: its components are those that are kept of the path, and
  that name.
* `strictlyWithin_of_append`: a cleaned path that continues that of a plain name lies below
  it.
-/

namespace MetricStore.Common.FilePath

/-- The slash. -/
def slash : UInt8 := 47

/-- The components of a path: the pieces between slashes. -/
def components : Bytes → List Bytes
  | [] => [[]]
  | b :: s =>
    if b = slash then [] :: components s
    else
      match components s with
      | [] => [[b]]
      | c :: cs => (b :: c) :: cs

/-- One component added to the reversed list of those kept. -/
def cleanStep (rooted : Bool) (kept : List Bytes) (c : Bytes) : List Bytes :=
  if c = [] ∨ c = lit "." then kept
  else if c = lit ".." then
    match kept with
    | [] => if rooted then [] else [c]
    | top :: rest => if top = lit ".." then c :: kept else rest
  else c :: kept

/-- `filepath.Clean`. -/
def clean (path : Bytes) : Bytes :=
  let rooted := path.head? = some slash
  let kept := (components path).foldl (cleanStep rooted) []
  let cleaned := (if rooted then [slash] else []) ++ [slash].intercalate kept.reverse
  if cleaned = [] then lit "." else cleaned

/-- `filepath.Join`: leading empty elements are ignored. -/
def join (elems : List Bytes) : Bytes :=
  match elems.dropWhile (· = []) with
  | [] => []
  | elems => clean ([slash].intercalate elems)

/-- A name that stands for a file of a directory. -/
structure Plain (name : Bytes) : Prop where
  ne_nil : name ≠ []
  ne_dot : name ≠ lit "."
  ne_dotdot : name ≠ lit ".."
  no_slash : slash ∉ name

instance (name : Bytes) : Decidable (Plain name) :=
  decidable_of_iff (name ≠ [] ∧ name ≠ lit "." ∧ name ≠ lit ".." ∧ slash ∉ name)
    ⟨fun h => ⟨h.1, h.2.1, h.2.2.1, h.2.2.2⟩,
      fun h => ⟨h.ne_nil, h.ne_dot, h.ne_dotdot, h.no_slash⟩⟩

theorem components_ne_nil (s : Bytes) : components s ≠ [] := by
  cases s with
  | nil => simp [components]
  | cons b s =>
    unfold components
    split
    · simp
    · split <;> simp

theorem components_append_slash (s t : Bytes) :
    components (s ++ slash :: t) = components s ++ components t := by
  induction s with
  | nil => simp [components]
  | cons b s ih =>
    rw [List.cons_append]
    by_cases hb : b = slash
    · simp only [components, if_pos hb, ih, List.cons_append]
    · simp only [components, if_neg hb, ih]
      -- the first component of `s` takes the byte
      cases hs : components s with
      | nil => exact absurd hs (components_ne_nil s)
      | cons c cs => rfl

theorem components_of_no_slash {name : Bytes} (h : slash ∉ name) : components name = [name] := by
  induction name with
  | nil => rfl
  | cons b name ih =>
    rw [List.mem_cons, not_or] at h
    simp only [components, if_neg (Ne.symm h.1), ih h.2]

theorem cleanStep_plain {name : Bytes} (h : Plain name) (rooted : Bool) (kept : List Bytes) :
    cleanStep rooted kept name = name :: kept := by
  unfold cleanStep
  rw [if_neg (not_or.2 ⟨h.ne_nil, h.ne_dot⟩), if_neg h.ne_dotdot]

theorem intercalate_concat (sep : Bytes) (l : List Bytes) (x : Bytes) :
    ∃ front, sep.intercalate (l ++ [x]) = front ++ x := by
  induction l with
  | nil => exact ⟨[], by simp [List.intercalate]⟩
  | cons y l ih =>
    obtain ⟨front, hfront⟩ := ih
    refine ⟨y ++ sep ++ front, ?_⟩
    rw [List.cons_append, List.intercalate_cons_of_ne_nil (by simp), hfront]
    simp

/-- A path whose last component is kept, cleaned. -/
theorem clean_eq_append {path name : Bytes} (hname : name ≠ [])
    (h : ∃ kept, (components path).foldl (cleanStep (path.head? = some slash)) []
      = name :: kept) :
    ∃ front, clean path = front ++ name := by
  obtain ⟨kept, h⟩ := h
  obtain ⟨front, hfront⟩ := intercalate_concat [slash] kept.reverse name
  refine ⟨(if path.head? = some slash then [slash] else []) ++ front, ?_⟩
  unfold clean
  dsimp only
  rw [h, List.reverse_cons, hfront]
  simp [hname]

/-- A path joined with a plain file name ends with that name. -/
theorem join_eq_append {name : Bytes} (h : Plain name) (dir : Bytes) :
    ∃ front, join [dir, name] = front ++ name := by
  by_cases hdir : dir = []
  · have hjoin : join [dir, name] = clean name := by
      simp [join, hdir, h.ne_nil, List.intercalate]
    rw [hjoin]
    refine clean_eq_append h.ne_nil ⟨[], ?_⟩
    rw [components_of_no_slash h.no_slash, List.foldl_cons, List.foldl_nil, cleanStep_plain h]
  · have hjoin : join [dir, name] = clean (dir ++ slash :: name) := by
      simp [join, hdir, List.intercalate]
    rw [hjoin]
    apply clean_eq_append h.ne_nil
    rw [components_append_slash, components_of_no_slash h.no_slash, List.foldl_append,
      List.foldl_cons, List.foldl_nil, cleanStep_plain h]
    exact ⟨_, rfl⟩

/-! ## Components of a cleaned path -/

/-- The components that `Clean` keeps, the last one first. -/
def kept (path : Bytes) : List Bytes :=
  (components path).foldl (cleanStep (path.head? = some slash)) []

/-- What the components of a path start with: an empty one, if it is rooted. -/
def root (path : Bytes) : List Bytes := if path.head? = some slash then [[]] else []

/-- The components of a path after `Clean`, except that the root has one more and the
    current directory is the dot. -/
def stem (path : Bytes) : List Bytes := root path ++ (kept path).reverse

/-- What the steps of `Clean` keep: plain names above dot-dots, and no dot-dot in a rooted
    path. -/
inductive Reduced (rooted : Bool) : List Bytes → Prop
  | nil : Reduced rooted []
  | name {c : Bytes} {cs : List Bytes} : Plain c → Reduced rooted cs → Reduced rooted (c :: cs)
  | up {cs : List Bytes} : rooted = false → (∀ top ∈ cs.head?, top = lit "..") →
      Reduced rooted cs → Reduced rooted (lit ".." :: cs)

theorem Reduced.tail {rooted : Bool} {c : Bytes} {cs : List Bytes}
    (h : Reduced rooted (c :: cs)) : Reduced rooted cs := by
  cases h with
  | name _ h => exact h
  | up _ _ h => exact h

theorem Reduced.cleanStep {rooted : Bool} {cs : List Bytes} (h : Reduced rooted cs) {c : Bytes}
    (hc : slash ∉ c) : Reduced rooted (cleanStep rooted cs c) := by
  unfold FilePath.cleanStep
  by_cases hskip : c = [] ∨ c = lit "."
  · rw [if_pos hskip]
    exact h
  rw [if_neg hskip]
  by_cases hup : c = lit ".."
  · rw [if_pos hup]
    subst hup
    cases cs with
    | nil =>
      cases rooted with
      | true => exact .nil
      | false => exact .up rfl (by simp) .nil
    | cons top rest =>
      dsimp only
      split_ifs with htop
      · -- a dot-dot below is not one of a rooted path
        subst htop
        cases h with
        | name hplain _ => exact absurd rfl hplain.ne_dotdot
        | up hrooted hhead hrest => exact .up hrooted (by simp) (.up hrooted hhead hrest)
      · exact h.tail
  · rw [if_neg hup]
    rw [not_or] at hskip
    exact .name ⟨hskip.1, hskip.2, hup, hc⟩ h

theorem slash_not_mem_components (s : Bytes) : ∀ c ∈ components s, slash ∉ c := by
  induction s with
  | nil => simp [components]
  | cons b s ih =>
    unfold components
    split_ifs with hb
    · simpa using ih
    · cases hs : components s with
      | nil => exact absurd hs (components_ne_nil s)
      | cons c cs =>
        rw [hs] at ih
        intro d hd
        rcases List.mem_cons.1 hd with rfl | hd
        · rw [List.mem_cons, not_or]
          exact ⟨Ne.symm hb, ih c List.mem_cons_self⟩
        · exact ih d (List.mem_cons_of_mem _ hd)

theorem reduced_kept (path : Bytes) : Reduced (path.head? = some slash) (kept path) := by
  unfold kept
  have hnoslash := slash_not_mem_components path
  -- from the left, with what is kept so far
  suffices ∀ (l cs : List Bytes), (∀ c ∈ l, slash ∉ c) →
      Reduced (path.head? = some slash) cs →
      Reduced (path.head? = some slash) (l.foldl (FilePath.cleanStep (path.head? = some slash)) cs)
    from this _ [] hnoslash .nil
  intro l
  induction l with
  | nil => exact fun cs _ h => h
  | cons c l ih =>
    intro cs hl h
    exact ih _ (fun d hd => hl d (List.mem_cons_of_mem _ hd))
      (h.cleanStep (hl c List.mem_cons_self))

/-- Cleaning again keeps everything. -/
theorem Reduced.foldl_reverse {rooted : Bool} {cs : List Bytes} (h : Reduced rooted cs) :
    cs.reverse.foldl (FilePath.cleanStep rooted) [] = cs := by
  induction h with
  | nil => rfl
  | name hplain _ ih =>
    rw [List.reverse_cons, List.foldl_append, ih, List.foldl_cons, List.foldl_nil,
      cleanStep_plain hplain]
  | @up cs hrooted hhead _ ih =>
    rw [List.reverse_cons, List.foldl_append, ih, List.foldl_cons, List.foldl_nil]
    cases cs with
    | nil =>
      subst hrooted
      rfl
    | cons top rest =>
      cases hhead top rfl
      rfl

theorem Reduced.component {rooted : Bool} {cs : List Bytes} (h : Reduced rooted cs) :
    ∀ c ∈ cs, c ≠ [] ∧ slash ∉ c := by
  induction h with
  | nil => simp
  | name hplain _ ih => exact List.forall_mem_cons.2 ⟨⟨hplain.ne_nil, hplain.no_slash⟩, ih⟩
  | up _ _ _ ih => exact List.forall_mem_cons.2 ⟨by decide, ih⟩

theorem components_intercalate {l : List Bytes} (hne : l ≠ []) (h : ∀ c ∈ l, slash ∉ c) :
    components ([slash].intercalate l) = l := by
  induction l with
  | nil => exact absurd rfl hne
  | cons c l ih =>
    rw [List.forall_mem_cons] at h
    by_cases hl : l = []
    · subst hl
      simpa [List.intercalate] using components_of_no_slash h.1
    · rw [List.intercalate_cons_of_ne_nil hl, List.append_assoc, List.singleton_append,
        components_append_slash, components_of_no_slash h.1, ih hl h.2]
      rfl

theorem head?_intercalate {l : List Bytes} (h : ∀ c ∈ l, c ≠ [] ∧ slash ∉ c) :
    ([slash].intercalate l).head? ≠ some slash := by
  cases l with
  | nil => simp [List.intercalate]
  | cons c l =>
    obtain ⟨hne, hslash⟩ := h c List.mem_cons_self
    obtain ⟨b, c, rfl⟩ := List.exists_cons_of_ne_nil hne
    have hb : b ≠ slash := by
      rintro rfl
      exact hslash List.mem_cons_self
    by_cases hl : l = []
    · simp [hl, List.intercalate, hb]
    · rw [List.intercalate_cons_of_ne_nil hl]
      simp [hb]

/-- The components of a cleaned path that is neither the root nor the current directory,
    and that cleaning keeps its root. -/
theorem components_clean {path : Bytes} (h : kept path ≠ []) :
    components (clean path) = stem path ∧ root (clean path) = root path := by
  have hcomponent := (reduced_kept path).component
  have hreverse : ∀ c ∈ (kept path).reverse, c ≠ [] ∧ slash ∉ c := fun c hc =>
    hcomponent c (List.mem_reverse.1 hc)
  have hne : (kept path).reverse ≠ [] := by simpa using h
  have hcomponents := components_intercalate hne fun c hc => (hreverse c hc).2
  have hhead := head?_intercalate hreverse
  have hnil : [slash].intercalate (kept path).reverse ≠ [] := by
    intro hnil
    rw [hnil] at hcomponents
    have hmem : ([] : Bytes) ∈ (kept path).reverse := hcomponents ▸ List.mem_singleton.2 rfl
    exact (hreverse [] hmem).1 rfl
  unfold clean
  dsimp only
  rw [show (components path).foldl (FilePath.cleanStep (path.head? = some slash)) [] = kept path
    from rfl]
  unfold stem root
  by_cases hroot : path.head? = some slash
  · simp only [hroot, if_true, List.singleton_append, List.cons_ne_nil, if_false,
      List.head?_cons, and_true]
    rw [components, if_pos rfl, hcomponents]
  · simp only [hroot, if_false, List.nil_append, hnil, hhead, hcomponents, and_self]

/-- `Join` with a plain name cleans a path that has the name after what is kept. -/
theorem join_plain {name : Bytes} (h : Plain name) (dir : Bytes) :
    ∃ path, join [dir, name] = clean path ∧ root path = root dir ∧
      kept path = name :: kept dir := by
  by_cases hdir : dir = []
  · subst hdir
    refine ⟨name, by simp [join, h.ne_nil, List.intercalate], ?_, ?_⟩
    · obtain ⟨b, name, rfl⟩ := List.exists_cons_of_ne_nil h.ne_nil
      have hb : b ≠ slash := by
        rintro rfl
        exact h.no_slash List.mem_cons_self
      simp [root, hb]
    · unfold kept
      rw [components_of_no_slash h.no_slash, List.foldl_cons, List.foldl_nil, cleanStep_plain h]
      rfl
  · obtain ⟨b, dir, rfl⟩ := List.exists_cons_of_ne_nil hdir
    refine ⟨(b :: dir) ++ slash :: name, by simp [join, List.intercalate], rfl, ?_⟩
    unfold kept
    rw [components_append_slash, components_of_no_slash h.no_slash, List.foldl_append,
      List.foldl_cons, List.foldl_nil, cleanStep_plain h]
    rfl

/-- **The components of a path joined with a plain name.** -/
theorem components_join {name : Bytes} (h : Plain name) (dir : Bytes) :
    components (join [dir, name]) = stem dir ++ [name] := by
  obtain ⟨path, hjoin, hroot, hkept⟩ := join_plain h dir
  have hne : kept path ≠ [] := by simp [hkept]
  rw [hjoin, (components_clean hne).1, stem, stem, hroot, hkept, List.reverse_cons,
    List.append_assoc]

theorem foldl_cleanStep_root (rooted : Bool) (path : Bytes) (l : List Bytes) :
    (root path ++ l).foldl (FilePath.cleanStep rooted) []
      = l.foldl (FilePath.cleanStep rooted) [] := by
  unfold root
  split <;> simp [FilePath.cleanStep]

/-- **The stem of a path joined with a plain name.** -/
theorem stem_join {name : Bytes} (h : Plain name) (dir : Bytes) :
    stem (join [dir, name]) = stem dir ++ [name] := by
  obtain ⟨path, hjoin, hroot, hkept⟩ := join_plain h dir
  have hne : kept path ≠ [] := by simp [hkept]
  obtain ⟨hcomponents, hroot'⟩ := components_clean hne
  have hsame : ((clean path).head? = some slash) = (path.head? = some slash) := by
    unfold root at hroot'
    by_cases hpath : path.head? = some slash
    · simpa [hpath] using hroot'
    · simpa [hpath] using hroot'
  have hagain : kept (clean path) = kept path := by
    unfold kept
    rw [hcomponents, stem, foldl_cleanStep_root]
    simp only [hsame]
    exact (reduced_kept path).foldl_reverse
  rw [hjoin, stem, stem, hagain, hroot', hroot, hkept, List.reverse_cons, List.append_assoc]

/-! ## Paths within a directory -/

/-- The path is that of the directory, or lies below it. -/
def Within (dir path : Bytes) : Prop :=
  ∃ names, (∀ n ∈ names, Plain n) ∧ stem path = stem dir ++ names

/-- The path lies strictly below the directory. -/
def StrictlyWithin (dir path : Bytes) : Prop :=
  ∃ names, names ≠ [] ∧ (∀ n ∈ names, Plain n) ∧ stem path = stem dir ++ names

/-- Nothing is within two directories with different plain names in the same place. -/
theorem eq_of_within {base name name' path : Bytes} (h : Plain name) (h' : Plain name')
    (hp : Within (join [base, name]) path) (hp' : Within (join [base, name']) path) :
    name = name' := by
  obtain ⟨names, -, hstem⟩ := hp
  obtain ⟨names', -, hstem'⟩ := hp'
  rw [hstem, stem_join h, stem_join h', List.append_assoc, List.append_assoc] at hstem'
  exact (List.cons.inj (List.append_cancel_left hstem')).1

/-- Above a plain name, `Clean` keeps only plain names. -/
theorem Reduced.plain_above {rooted : Bool} {name : Bytes} (hname : Plain name) :
    ∀ {above below : List Bytes}, Reduced rooted (above ++ name :: below) →
      ∀ c ∈ above, Plain c := by
  intro above
  induction above with
  | nil =>
    intro below _ c hc
    cases hc
  | cons top above ih =>
    intro below h
    have hrest := ih h.tail
    cases h with
    | name hplain _ => exact List.forall_mem_cons.2 ⟨hplain, hrest⟩
    | up _ hhead _ =>
      -- a dot-dot stands on a dot-dot, which is not a plain name
      cases above with
      | nil => exact absurd (hhead name rfl) hname.ne_dotdot
      | cons next above => exact absurd (hhead next rfl) (hrest next List.mem_cons_self).ne_dotdot

/-- Where a name is in the components, it is in those that are kept. -/
theorem kept_eq_append {path name : Bytes} {front rest : List Bytes} (hname : name ≠ [])
    (h : stem path = front ++ name :: rest) :
    ∃ below, kept path = rest.reverse ++ name :: below := by
  unfold stem root at h
  split_ifs at h with hroot
  · cases front with
    | nil =>
      rw [List.nil_append, List.singleton_append, List.cons.injEq] at h
      exact absurd h.1.symm hname
    | cons c front =>
      rw [List.singleton_append, List.cons_append, List.cons.injEq] at h
      refine ⟨front.reverse, ?_⟩
      rw [← List.reverse_reverse (kept path), h.2]
      simp
  · refine ⟨front.reverse, ?_⟩
    rw [List.nil_append] at h
    rw [← List.reverse_reverse (kept path), h]
    simp

/-- A cleaned path that continues the path of a plain name is strictly below it. -/
theorem strictlyWithin_of_append {base name rest : Bytes} (h : Plain name)
    (hclean : clean (join [base, name] ++ slash :: rest) = join [base, name] ++ slash :: rest) :
    StrictlyWithin (join [base, name]) (join [base, name] ++ slash :: rest) := by
  set path := join [base, name] ++ slash :: rest with hpath
  have hcomponents : components path = stem base ++ name :: components rest := by
    rw [hpath, components_append_slash, components_join h, List.append_assoc]
    rfl
  have hkept : kept path ≠ [] := by
    intro hnil
    have hmem : name ∈ components path := by
      rw [hcomponents]
      simp
    rw [← hclean, clean] at hmem
    rw [show (components path).foldl (FilePath.cleanStep (path.head? = some slash)) [] = [] from
      hnil] at hmem
    by_cases hroot : path.head? = some slash
    · simp [hroot, components, List.intercalate, h.ne_nil] at hmem
    · simp [hroot, components_of_no_slash (by decide : slash ∉ lit "."), List.intercalate,
        h.ne_dot] at hmem
  have hstem : stem path = stem base ++ name :: components rest := by
    rw [← (components_clean hkept).1, hclean, hcomponents]
  refine ⟨components rest, components_ne_nil rest, ?_, ?_⟩
  · have hreduced := reduced_kept path
    obtain ⟨below, hbelow⟩ := kept_eq_append h.ne_nil hstem
    rw [hbelow] at hreduced
    intro c hc
    exact hreduced.plain_above h c (List.mem_reverse.2 hc)
  · rw [hstem, stem_join h, List.append_assoc]
    rfl

end MetricStore.Common.FilePath
