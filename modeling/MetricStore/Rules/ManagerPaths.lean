import MetricStore.Rules.RemoteRuleManager

/-!
# The directories of managers

`RuleManagerFiles` (`internal/rules/rule_manager_files.go`) keeps the files of a manager in
the directory `filepath.Join(rulesStoragePath, managerId)`. `Join` cleans the path, and the
handler that creates managers (`internal/api/rules_api.go`, lines 78–119) accepts every
identifier: `ManagerConfig.Validate` looks at the certificates only. With an identifier
that is not the name of a file, the directory may be the storage path or lie outside of
it, or be that of another manager or in it.

Results:
* `confined_iff_plain`: what `Create`, `UpsertRuleGroup` and `Delete` touch for an
  identifier lies strictly below the storage path, and apart from the directory of every
  other one that is a file name, exactly if it is a file name itself.
* `dotdot_leaves_storage`: identifiers that are accepted and are no file names.
-/

namespace MetricStore.Rules

open MetricStore.Common MetricStore.Common.FilePath

/-! ## Model -/

/-- A call of `RuleManagerFiles` that changes files, with how its operations end. -/
inductive FileCall
  | create (o : Outcomes) (alertManagers : Option AlertmanagerConfigs)
  | upsertRuleGroup (o : CallOutcomes) (text : Bytes)
  | delete (o : CallOutcomes)

/-- The disk after a call. -/
def FileCall.perform (rulesStoragePath managerId : Bytes) (disk : Disk) : FileCall → Disk
  | .create o alertManagers => (Rules.create rulesStoragePath o managerId disk alertManagers).1
  | .upsertRuleGroup o text =>
    (RuleManagerFiles.upsertRuleGroup rulesStoragePath o managerId disk text).1
  | .delete o => (RuleManagerFiles.delete rulesStoragePath o managerId disk).1

/-- The identifier that the handler passes on for a configuration, if it accepts it. -/
def acceptedId (api : ApiLibrary) (m : ManagerConfig) : Option Bytes :=
  if (m.withId api).validate api = none then some (m.withId api).id else none

/-! ## Specification -/

section Specification

variable (rulesStoragePath managerId : Bytes)

/-- The directory of a manager, or one of the files that are written for it. -/
def Written (path : Bytes) : Prop :=
  path = ruleManagerDirectoryPath rulesStoragePath managerId ∨
    path = rulesFilePath rulesStoragePath managerId ∨
    path = alertManagerFilePath rulesStoragePath managerId ∨
    ∃ i kind, path = filePath rulesStoragePath managerId i kind

/-- The paths that the calls for a manager create, write or remove: those, and what else is
    below the directory. -/
def Touched (path : Bytes) : Prop :=
  Written rulesStoragePath managerId path ∨
    (clean path = path ∧ Below (ruleManagerDirectoryPath rulesStoragePath managerId) path)

/-- The manager stays in its own directory. -/
structure Confined : Prop where
  below : ∀ path, Touched rulesStoragePath managerId path → StrictlyWithin rulesStoragePath path
  apart : ∀ other, Plain other → other ≠ managerId →
    ¬ Within (ruleManagerDirectoryPath rulesStoragePath managerId)
        (ruleManagerDirectoryPath rulesStoragePath other) ∧
      ¬ Within (ruleManagerDirectoryPath rulesStoragePath other)
        (ruleManagerDirectoryPath rulesStoragePath managerId)
  frame : ∀ other, Plain other → other ≠ managerId → ∀ call disk path, clean path = path →
    Within (ruleManagerDirectoryPath rulesStoragePath other) path →
    (FileCall.perform rulesStoragePath managerId disk call).lookup path = disk.lookup path

end Specification

/-! ## What the calls change -/

/-- The disks differ at most at the paths of `P`. -/
def ChangesOnly (P : Bytes → Prop) (disk disk' : Disk) : Prop :=
  ∀ path, ¬ P path → disk'.lookup path = disk.lookup path

namespace ChangesOnly

variable {P : Bytes → Prop}

theorem refl (disk : Disk) : ChangesOnly P disk disk := fun _ _ => rfl

theorem trans {a b c : Disk} (hab : ChangesOnly P a b) (hbc : ChangesOnly P b c) :
    ChangesOnly P a c := by
  intro path hpath
  rw [hbc path hpath, hab path hpath]

theorem insert {path : Bytes} (h : P path) (disk : Disk) (entry : Entry) :
    ChangesOnly P disk (disk.insert path entry) := by
  intro path' hpath'
  refine AList.lookup_insert_ne ?_
  rintro rfl
  exact hpath' h

theorem eraseAll {paths : List Bytes} (h : ∀ p ∈ paths, P p) (disk : Disk) :
    ChangesOnly P disk (disk.eraseAll paths) := by
  intro path hpath
  rw [GoMap.lookup_eraseAll, if_neg fun hmem => hpath (h path hmem)]

end ChangesOnly

section Calls

variable {rulesStoragePath managerId : Bytes}

/-- What is written for a manager, and everything that continues the path of its
    directory. -/
def InDirectory (rulesStoragePath managerId path : Bytes) : Prop :=
  Written rulesStoragePath managerId path ∨
    Below (ruleManagerDirectoryPath rulesStoragePath managerId) path

theorem inDirectory_directory : InDirectory rulesStoragePath managerId
    (ruleManagerDirectoryPath rulesStoragePath managerId) :=
  Or.inl (Or.inl rfl)

theorem changesOnly_managerFile (disk₀ disk : Disk) (path : Bytes) (entry : Entry)
    (hpath : ManagerFile rulesStoragePath managerId path)
    (h : ChangesOnly (InDirectory rulesStoragePath managerId) disk₀ disk) :
    ChangesOnly (InDirectory rulesStoragePath managerId) disk₀ (disk.insert path entry) :=
  h.trans (.insert (Or.inl (Or.inr hpath)) disk entry)

theorem changesOnly_removeAll (o : CallOutcomes) (disk : Disk) :
    ChangesOnly (InDirectory rulesStoragePath managerId) disk
      (removeAll o disk (ruleManagerDirectoryPath rulesStoragePath managerId)).1 := by
  unfold removeAll
  cases o.removeError with
  | some failure =>
    refine .eraseAll (fun p hp => ?_) disk
    exact Or.inr (of_decide_eq_true (List.mem_filter.1 hp).2)
  | none =>
    refine .eraseAll (fun p hp => ?_) disk
    rcases of_decide_eq_true (List.mem_filter.1 hp).2 with rfl | hbelow
    · exact inDirectory_directory
    · exact Or.inr hbelow

/-- A call for a manager changes nothing outside its directory. -/
theorem changesOnly_perform (disk : Disk) (call : FileCall) :
    ChangesOnly (InDirectory rulesStoragePath managerId) disk
      (call.perform rulesStoragePath managerId disk) := by
  cases call with
  | create o alertManagers =>
    exact create_induction (changesOnly_managerFile disk)
      (fun _ => .insert inDirectory_directory disk .directory) (fun _ => .refl disk) alertManagers
  | upsertRuleGroup o text =>
    simp only [FileCall.perform, RuleManagerFiles.upsertRuleGroup]
    cases hstat : o.statError with
    | some err => exact .refl disk
    | none =>
      by_cases hexists : ruleManagerDirectoryPath rulesStoragePath managerId ∈ disk
      · simp only [hexists, if_true]
        split
        · exact .refl disk
        · cases hwrite : o.writeError (rulesFilePath rulesStoragePath managerId) with
          | some err =>
            exact failedWrite_induction (changesOnly_managerFile disk) (.inl rfl) (.refl disk)
          | none => exact changesOnly_managerFile disk disk _ _ (.inl rfl) (.refl disk)
      · simp only [hexists, if_false]
        exact .refl disk
  | delete o =>
    simp only [FileCall.perform, RuleManagerFiles.delete]
    cases hstat : o.statError with
    | some err => exact .refl disk
    | none =>
      by_cases hexists : ruleManagerDirectoryPath rulesStoragePath managerId ∈ disk
      · simp only [hexists, if_true]
        exact changesOnly_removeAll o disk
      · simp only [hexists, if_false]
        exact .refl disk

end Calls

/-! ## Identifiers that are file names -/

section Plain

variable {rulesStoragePath managerId : Bytes}

/-- What is touched for a file name lies in its directory. -/
theorem Touched.within (h : Plain managerId) {path : Bytes}
    (hpath : Touched rulesStoragePath managerId path) :
    Within (ruleManagerDirectoryPath rulesStoragePath managerId) path := by
  have hfile : ∀ {name : Bytes}, Plain name →
      Within (ruleManagerDirectoryPath rulesStoragePath managerId)
        (join [ruleManagerDirectoryPath rulesStoragePath managerId, name]) := by
    intro name hname
    exact ⟨[name], by simpa using hname, stem_join hname _⟩
  rcases hpath with (rfl | rfl | rfl | ⟨i, kind, rfl⟩) | ⟨hclean, rest, rfl⟩
  · exact ⟨[], by simp, by simp⟩
  · exact hfile plain_rules
  · exact hfile plain_alertmanager
  · obtain ⟨name, hname, heq⟩ := filePath_eq_join rulesStoragePath managerId i kind
    rw [heq]
    exact hfile hname
  · rw [List.append_assoc, List.singleton_append] at hclean ⊢
    obtain ⟨names, -, hplain, hstem⟩ := strictlyWithin_of_append h hclean
    exact ⟨names, hplain, hstem⟩

theorem confined_of_plain (h : Plain managerId) : Confined rulesStoragePath managerId where
  below path hpath := by
    obtain ⟨names, hplain, hstem⟩ := hpath.within h
    refine ⟨managerId :: names, by simp, List.forall_mem_cons.2 ⟨h, hplain⟩, ?_⟩
    rw [hstem, ruleManagerDirectoryPath, stem_join h, List.append_assoc]
    rfl
  apart other hother hne := by
    have hself : ∀ name, Within (ruleManagerDirectoryPath rulesStoragePath name)
        (ruleManagerDirectoryPath rulesStoragePath name) := fun _ => ⟨[], by simp, by simp⟩
    constructor
    · intro hwithin
      exact hne (eq_of_within hother h (hself other) hwithin)
    · intro hwithin
      exact hne (eq_of_within hother h hwithin (hself managerId))
  frame other hother hne call disk path hclean hwithin := by
    refine changesOnly_perform disk call path fun hin => hne ?_
    have htouched : Touched rulesStoragePath managerId path :=
      hin.imp_right fun hbelow => ⟨hclean, hbelow⟩
    exact eq_of_within hother h hwithin (htouched.within h)

/-- The first name of the directory below the storage path is an identifier, too. -/
theorem plain_of_confined (h : Confined rulesStoragePath managerId) : Plain managerId := by
  obtain ⟨names, hne, hplain, hstem⟩ := h.below _ (Or.inl (Or.inl rfl))
  obtain ⟨name, names, rfl⟩ := List.exists_cons_of_ne_nil hne
  rw [List.forall_mem_cons] at hplain
  by_contra hnot
  have hother : name ≠ managerId := by
    rintro rfl
    exact hnot hplain.1
  apply (h.apart name hplain.1 hother).2
  refine ⟨names, hplain.2, ?_⟩
  rw [hstem, ruleManagerDirectoryPath, stem_join hplain.1, List.append_assoc]
  rfl

end Plain

/-- A manager stays in its own directory exactly if its identifier is the name of a
    file. -/
theorem confined_iff_plain (rulesStoragePath managerId : Bytes) :
    Confined rulesStoragePath managerId ↔ Plain managerId :=
  ⟨plain_of_confined, confined_of_plain⟩

/-! ## Identifiers that are accepted -/

/-- The handler accepts any identifier but the empty one, for which it takes a new one. -/
theorem acceptedId_of_ne_nil (api : ApiLibrary) {managerId : Bytes} (h : managerId ≠ []) :
    acceptedId api ⟨managerId, none⟩ = some managerId := by
  have hid : ManagerConfig.withId api ⟨managerId, none⟩ = ⟨managerId, none⟩ := if_neg h
  have hnone : (⟨managerId, none⟩ : ManagerConfig).validate api = none := by
    have hempty : api.order.iterate [] = [] := (api.order.perm []).eq_nil
    simp [ManagerConfig.validate, hempty]
  rw [acceptedId, hid, if_pos hnone]

/-- A disk with the rules of manager `m`, and the storage path of a node. -/
def sampleDisk : Disk :=
  GoMap.ofPairs [(lit "/var/rules", .directory), (lit "/var/rules/m", .directory),
    (lit "/var/rules/m/rules.yml", .text (lit "groups: []\n")), (lit "/var", .directory)]

/-- Checks that accept every certificate. -/
def acceptingApi : ApiLibrary := ⟨lit "uuid", fun _ => true, fun _ _ => none, ⟨id, .refl⟩⟩

/-- `..` is accepted; its rules are written outside the storage path, and deleting it
    removes the files of another manager. `m/x` is accepted, and lies in the directory of
    `m`. -/
theorem dotdot_leaves_storage :
    acceptedId acceptingApi ⟨lit "..", none⟩ = some (lit "..") ∧
      acceptedId acceptingApi ⟨lit "m/x", none⟩ = some (lit "m/x") ∧
      acceptedId acceptingApi ⟨lit "m", none⟩ = some (lit "m") ∧
      rulesFilePath (lit "/var/rules") (lit "..") = lit "/var/rules.yml" ∧
      ruleManagerDirectoryPath (lit "/var/rules") (lit "m/x") = lit "/var/rules/m/x" ∧
      sampleDisk.lookup (lit "/var/rules/m/rules.yml") = some (.text (lit "groups: []\n")) ∧
      (FileCall.perform (lit "/var/rules") (lit "..") sampleDisk
        (.delete .allSucceed)).lookup (lit "/var/rules/m/rules.yml") = none := by
  decide

end MetricStore.Rules
