import MetricStore.Rules.Files
import MetricStore.Rules.RuleGroup

/-!
# The rule manager of a node

Model of `LocalRuleManager` (`internal/rules/local_rule_manager.go`, lines 23–58), with
`Delete` and `UpsertRuleGroup` of `RuleManagerFiles` (`rule_manager_files.go`) and `Delete`
and `Reload` of `PromRuleManagers` (`prom_managers.go`). `CreateManager` is in
`Rules.Files`.

A call has effects on the disk and on the running managers, one after the other, and
nothing is taken back when a later one fails. `CallOutcomes` says how each of them ends.
A call may also not return: `Stop` and `Reload` of a manager that was not started wait for
groups that are not evaluated (`Rules.Files`). The directories of managers are the
directories in `rulesStoragePath`; an identifier is any text. The YAML text of a rule group
is a parameter.

Results:
* `reloadFrom_reply`: `Reload` ends as it does for the first manager that does not reload.
* `mem_reloadFrom`, `unloaded_reloadFrom`: it changes no more than the groups of the managers.
* `reloadFrom_reloaded`: if it succeeds, all of them have reloaded.
* `createManager_of_not_makesDirectory`, `createManager_of_makesDirectory`: what
  `CreateManager` does, by how its operations end.
-/

namespace MetricStore.Rules

open MetricStore.Common MetricStore.Common.FilePath

/-! ## Calls -/

/-- `RuleManager` (`internal/rules/interfaces.go`, lines 16–24): the calls that change
    something, on a state. -/
structure RuleManager (σ : Type) where
  createManager : Bytes → Option AlertmanagerConfigs → σ → σ × Except Error Manager
  deleteManager : Bytes → σ → σ × Reply
  upsertRuleGroup : Bytes → RuleGroup → σ → σ × Reply

/-- A call of a rule manager. -/
inductive Call
  | createManager (managerId : Bytes) (alertManagers : Option AlertmanagerConfigs)
  | deleteManager (managerId : Bytes)
  | upsertRuleGroup (managerId : Bytes) (ruleGroup : RuleGroup)

/-- The manager that a call is about. -/
def Call.managerId : Call → Bytes
  | .createManager managerId _ => managerId
  | .deleteManager managerId => managerId
  | .upsertRuleGroup managerId _ => managerId

/-- The error of a result, if it is one. -/
def errorOf {α : Type} : Except Error α → Option Error
  | .error e => some e
  | .ok _ => none

/-- The state after a call, and its reply. -/
def RuleManager.perform {σ : Type} (m : RuleManager σ) (s : σ) : Call → σ × Reply
  | .createManager managerId alertManagers =>
    let r := m.createManager managerId alertManagers s
    (r.1, .ofError (errorOf r.2))
  | .deleteManager managerId => m.deleteManager managerId s
  | .upsertRuleGroup managerId ruleGroup => m.upsertRuleGroup managerId ruleGroup s

/-- How the operations of a call end, those of `CreateManager` and the others:
    `RemoveAll` of the manager's directory, with the paths that it has removed if it
    fails, and the steps of `Reload` of each manager, by the disk, in the order of the range
    over the managers. -/
structure CallOutcomes extends Outcomes where
  removeError : Option (Bytes × List Bytes)
  reload : Disk → Bytes → PromRuleManager → ReloadOutcome
  reloadOrder : MapOrder Bytes

/-- Every operation succeeds, and the rule files are without groups. -/
def CallOutcomes.allSucceed : CallOutcomes :=
  ⟨.allSucceed, none, fun _ _ _ => .loaded [] none, ⟨id, .refl⟩⟩

/-- The path lies below the directory. -/
def Below (directory path : Bytes) : Prop := directory ++ [slash] <+: path

instance (directory path : Bytes) : Decidable (Below directory path) :=
  inferInstanceAs (Decidable (_ <+: _))

/-- `os.RemoveAll`: everything at the path and below it is removed. If that fails, some of
    what is below may be gone. -/
def removeAll (o : CallOutcomes) (disk : Disk) (path : Bytes) : Disk × Option Bytes :=
  match o.removeError with
  | some (err, removed) => (disk.eraseAll (removed.filter fun p => Below path p), some err)
  | none => (disk.eraseAll (disk.keys.filter fun p => p = path ∨ Below path p), none)

section Files

variable (rulesStoragePath : Bytes) (o : CallOutcomes) (managerId : Bytes)

/-- `RuleManagerFiles.Delete` (lines 57–67), with the disk after it. -/
def RuleManagerFiles.delete (disk : Disk) : Disk × Option Error :=
  match o.statError with
  | some err => (disk, some (.other err))
  | none =>
    if ruleManagerDirectoryPath rulesStoragePath managerId ∈ disk then
      match removeAll o disk (ruleManagerDirectoryPath rulesStoragePath managerId) with
      | (disk, err) => (disk, err.map .other)
    else (disk, some .managerNotExists)

/-- `RuleManagerFiles.UpsertRuleGroup` (lines 93–103) of a group with the given text. A
    directory cannot be written. -/
def RuleManagerFiles.upsertRuleGroup (disk : Disk) (text : Bytes) : Disk × Option Error :=
  let rulesFile := rulesFilePath rulesStoragePath managerId
  match o.statError with
  | some err => (disk, some (.other err))
  | none =>
    if ruleManagerDirectoryPath rulesStoragePath managerId ∈ disk then
      if disk.lookup rulesFile = some .directory then
        (disk, some (.other (lit "is a directory")))
      else
        match o.writeError rulesFile with
        | some err => (failedWrite o.toOutcomes disk rulesFile, some (.other err))
        | none => (disk.insert rulesFile (.text text), none)
    else (disk, some .managerNotExists)

/-- `PromRuleManagers.Delete` (lines 57–66), with the managers after it. `Stop` takes the
    lock and waits for every group. -/
def PromRuleManagers.delete (managers : GoMap Bytes PromRuleManager) :
    GoMap Bytes PromRuleManager × Reply :=
  match managers.lookup managerId with
  | none => (managers, .error .managerNotExists)
  | some m =>
    if m.CanStop then (managers.erase managerId, .ok)
    else (managers.insert managerId { m with state := .stuck }, .blocked)

/-- The loop of `PromRuleManagers.Reload` (lines 90–95): it ends at the first manager that
    does not reload. -/
def PromRuleManagers.reloadFrom (outcome : Bytes → PromRuleManager → ReloadOutcome) :
    List Bytes → GoMap Bytes PromRuleManager → GoMap Bytes PromRuleManager × Reply
  | [], managers => (managers, .ok)
  | id :: ids, managers =>
    match managers.lookup id with
    | none => reloadFrom outcome ids managers
    | some m =>
      match m.reload (outcome id m) with
      | (m, .ok) => reloadFrom outcome ids (managers.insert id m)
      | (m, reply) => (managers.insert id m, reply)

/-- `PromRuleManagers.Reload` (lines 87–98), with this disk. -/
def PromRuleManagers.reload (disk : Disk) (managers : GoMap Bytes PromRuleManager) :
    GoMap Bytes PromRuleManager × Reply :=
  PromRuleManagers.reloadFrom (o.reload disk) (o.reloadOrder.iterate managers.keys) managers

/-- `LocalRuleManager.DeleteManager` (lines 37–44). -/
def LocalRuleManager.deleteManager (node : LocalNode) : LocalNode × Reply :=
  match RuleManagerFiles.delete rulesStoragePath o managerId node.disk with
  | (disk, some e) => (⟨disk, node.promRuleManagers⟩, .error e)
  | (disk, none) =>
    match PromRuleManagers.delete managerId node.promRuleManagers with
    | (managers, reply) => (⟨disk, managers⟩, reply)

variable (lib : RuleLibrary) (marshal : PromRuleGroup → Bytes)

/-- `LocalRuleManager.UpsertRuleGroup` (lines 46–58). -/
def LocalRuleManager.upsertRuleGroup (ruleGroup : RuleGroup) (node : LocalNode) :
    LocalNode × Reply :=
  match ruleGroup.convertToPromRuleGroup lib with
  | .error err => (node, .error (.other err))
  | .ok promRuleGroup =>
    match RuleManagerFiles.upsertRuleGroup rulesStoragePath o managerId node.disk
      (marshal promRuleGroup) with
    | (disk, some e) => (⟨disk, node.promRuleManagers⟩, .error e)
    | (disk, none) =>
      match PromRuleManagers.reload o disk node.promRuleManagers with
      | (managers, reply) => (⟨disk, managers⟩, reply)

end Files

/-- `LocalRuleManager`, with the way in which the operations of its next call end. -/
def localRuleManager (lib : RuleLibrary) (marshal : PromRuleGroup → Bytes)
    (rulesStoragePath : Bytes) (o : CallOutcomes) : RuleManager LocalNode where
  createManager managerId alertManagers node :=
    let r := createManager rulesStoragePath o.toOutcomes managerId node alertManagers
    (r.1, r.2.2)
  deleteManager managerId node :=
    LocalRuleManager.deleteManager rulesStoragePath o managerId node
  upsertRuleGroup managerId ruleGroup node :=
    LocalRuleManager.upsertRuleGroup rulesStoragePath o managerId lib marshal ruleGroup node

/-! ## The loop of `Reload` -/

namespace PromRuleManagers

variable {outcome : Bytes → PromRuleManager → ReloadOutcome}

/-- How the loop ends at a manager that does not reload. -/
def failure (outcome : Bytes → PromRuleManager → ReloadOutcome)
    (managers : GoMap Bytes PromRuleManager) (id : Bytes) : Option Reply :=
  (managers.lookup id).bind fun m => (m.reload (outcome id m)).2.failure?

theorem failure_insert_ne {managers : GoMap Bytes PromRuleManager} {id id' : Bytes}
    (h : id' ≠ id) (m : PromRuleManager) :
    failure outcome (managers.insert id m) id' = failure outcome managers id' := by
  unfold failure
  rw [AList.lookup_insert_ne h]

theorem failure_eq_some_iff {managers : GoMap Bytes PromRuleManager} {id : Bytes} {reply : Reply} :
    failure outcome managers id = some reply ↔
      reply ≠ .ok ∧ ∃ m, managers.lookup id = some m ∧ (m.reload (outcome id m)).2 = reply := by
  unfold failure
  cases managers.lookup id with
  | none => simp
  | some m =>
    rw [Option.bind_some, Reply.failure?_eq_some_iff]
    simp

/-- The loop ends as at the first manager that does not reload. The managers are visited
    once, and none of them changes before. -/
theorem reloadFrom_reply {ids : List Bytes} (hids : ids.Nodup)
    (managers : GoMap Bytes PromRuleManager) :
    (reloadFrom outcome ids managers).2 =
      (ids.findSome? (failure outcome managers)).getD .ok := by
  induction ids generalizing managers with
  | nil => rfl
  | cons id ids ih =>
    rw [List.nodup_cons] at hids
    rw [reloadFrom, List.findSome?_cons]
    cases hm : managers.lookup id with
    | none =>
      rw [show failure outcome managers id = none by rw [failure, hm]; rfl]
      exact ih hids.2 managers
    | some m =>
      have hrest : ∀ m', ids.findSome? (failure outcome (managers.insert id m')) =
          ids.findSome? (failure outcome managers) := by
        intro m'
        rw [← List.head?_filterMap, ← List.head?_filterMap]
        congr 1
        refine List.filterMap_congr fun id' hid' => failure_insert_ne ?_ m'
        rintro rfl
        exact hids.1 hid'
      have hfailure : failure outcome managers id = (m.reload (outcome id m)).2.failure? := by
        rw [failure, hm, Option.bind_some]
      rw [hfailure]
      dsimp only
      cases m.reload (outcome id m) with
      | mk m' reply =>
        cases reply with
        | ok =>
          dsimp only [Reply.failure?]
          rw [ih hids.2, hrest]
        | error e => rfl
        | blocked => rfl

/-- The loop neither adds nor removes a manager. -/
theorem mem_reloadFrom (ids : List Bytes) (managers : GoMap Bytes PromRuleManager) (id : Bytes) :
    id ∈ (reloadFrom outcome ids managers).1 ↔ id ∈ managers := by
  induction ids generalizing managers with
  | nil => rfl
  | cons id' ids ih =>
    rw [reloadFrom]
    cases hm : managers.lookup id' with
    | none => exact ih managers
    | some m =>
      have hid' : id' ∈ managers := AList.lookup_isSome.1 (by rw [hm]; rfl)
      have hinsert : ∀ m', id ∈ managers.insert id' m' ↔ id ∈ managers := by
        intro m'
        rw [AList.mem_insert]
        exact ⟨fun h => h.elim (fun heq => heq ▸ hid') fun h => h, Or.inr⟩
      dsimp only
      cases m.reload (outcome id' m) with
      | mk m' reply =>
        cases reply with
        | ok => exact (ih _).trans (hinsert m')
        | error e => exact hinsert m'
        | blocked => exact hinsert m'

/-- A loop that returns changes no more than the groups of the managers. -/
theorem unloaded_reloadFrom (ids : List Bytes) {managers : GoMap Bytes PromRuleManager}
    (h : (reloadFrom outcome ids managers).2 ≠ .blocked) (id : Bytes) :
    ((reloadFrom outcome ids managers).1.lookup id).map PromRuleManager.unloaded =
      (managers.lookup id).map PromRuleManager.unloaded := by
  induction ids generalizing managers with
  | nil => rfl
  | cons id' ids ih =>
    rw [reloadFrom] at h ⊢
    cases hm : managers.lookup id' with
    | none =>
      rw [hm] at h
      exact ih h
    | some m =>
      rw [hm] at h
      have hunloaded := m.reload_unloaded (outcome id' m)
      dsimp only at h ⊢
      cases hreload : m.reload (outcome id' m) with
      | mk m' reply =>
        rw [hreload] at h hunloaded
        have hinsert (hreturns : reply ≠ .blocked) :
            ((managers.insert id' m').lookup id).map PromRuleManager.unloaded =
              (managers.lookup id).map PromRuleManager.unloaded := by
          by_cases hid : id = id'
          · rw [hid, AList.lookup_insert, hm, Option.map_some, Option.map_some,
              hunloaded hreturns]
          · rw [AList.lookup_insert_ne hid]
        cases reply with
        | ok => exact (ih h).trans (hinsert nofun)
        | error e => exact hinsert nofun
        | blocked => exact absurd rfl h

theorem lookup_reloadFrom_of_notMem {ids : List Bytes} {managers : GoMap Bytes PromRuleManager}
    {id : Bytes} (h : id ∉ ids) :
    (reloadFrom outcome ids managers).1.lookup id = managers.lookup id := by
  induction ids generalizing managers with
  | nil => rfl
  | cons id' ids ih =>
    rw [List.mem_cons, not_or] at h
    rw [reloadFrom]
    cases managers.lookup id' with
    | none => exact ih h.2
    | some m =>
      dsimp only
      cases m.reload (outcome id' m) with
      | mk m' reply =>
        have hinsert : (managers.insert id' m').lookup id = managers.lookup id :=
          AList.lookup_insert_ne h.1
        cases reply with
        | ok => exact (ih h.2).trans hinsert
        | error e => exact hinsert
        | blocked => exact hinsert

/-- After a loop without an error, every manager that was visited has reloaded. -/
theorem reloadFrom_reloaded {ids : List Bytes} (hids : ids.Nodup)
    {managers : GoMap Bytes PromRuleManager} {id : Bytes} {m : PromRuleManager}
    (hok : (reloadFrom outcome ids managers).2 = .ok) (hid : id ∈ ids)
    (hm : managers.lookup id = some m) :
    (m.reload (outcome id m)).2 = .ok ∧
      (reloadFrom outcome ids managers).1.lookup id = some (m.reload (outcome id m)).1 := by
  induction ids generalizing managers with
  | nil => cases hid
  | cons id' ids ih =>
    rw [List.nodup_cons] at hids
    rw [reloadFrom] at hok ⊢
    rcases List.mem_cons.1 hid with rfl | hmem
    · rw [hm] at hok ⊢
      dsimp only at hok ⊢
      cases hreload : m.reload (outcome id m) with
      | mk m' reply =>
        rw [hreload] at hok
        cases reply with
        | ok =>
          refine ⟨rfl, ?_⟩
          rw [lookup_reloadFrom_of_notMem hids.1, AList.lookup_insert]
        | error e => cases hok
        | blocked => cases hok
    · have hne : id ≠ id' := by
        rintro rfl
        exact hids.1 hmem
      cases hm' : managers.lookup id' with
      | none =>
        rw [hm'] at hok
        exact ih hids.2 hok hmem hm
      | some m' =>
        rw [hm'] at hok
        dsimp only at hok ⊢
        cases hreload : m'.reload (outcome id' m') with
        | mk m'' reply =>
          rw [hreload] at hok
          cases reply with
          | ok => exact ih hids.2 hok hmem ((AList.lookup_insert_ne hne).trans hm)
          | error e => cases hok
          | blocked => cases hok

end PromRuleManagers

/-! ## Directories of managers -/

section Directories

variable (rulesStoragePath : Bytes)

/-- The storage path has a directory of this name. -/
def HasDirectory (disk : Disk) (managerId : Bytes) : Prop :=
  Plain managerId ∧
    disk.lookup (ruleManagerDirectoryPath rulesStoragePath managerId) = some .directory

instance (disk : Disk) (managerId : Bytes) :
    Decidable (HasDirectory rulesStoragePath disk managerId) :=
  inferInstanceAs (Decidable (_ ∧ _))

/-- The directories are those of the running managers. -/
def Synced (node : LocalNode) : Prop :=
  ∀ managerId, HasDirectory rulesStoragePath node.disk managerId ↔
    managerId ∈ node.promRuleManagers

/-- The directories of managers hold the same in both. -/
def SameDirectories (disk disk' : Disk) : Prop :=
  ∀ managerId, Plain managerId →
    disk'.lookup (ruleManagerDirectoryPath rulesStoragePath managerId)
      = disk.lookup (ruleManagerDirectoryPath rulesStoragePath managerId)

variable {rulesStoragePath}

theorem directory_injective {managerId managerId' : Bytes} (h : Plain managerId)
    (h' : Plain managerId')
    (heq : ruleManagerDirectoryPath rulesStoragePath managerId
      = ruleManagerDirectoryPath rulesStoragePath managerId') : managerId = managerId' := by
  have hcomponents := congrArg components heq
  rw [ruleManagerDirectoryPath, ruleManagerDirectoryPath, components_join h,
    components_join h'] at hcomponents
  simpa using hcomponents

/-- A file in the directory of a manager is not itself such a directory. -/
theorem file_ne_directory {managerId managerId' name : Bytes} (h : Plain managerId)
    (h' : Plain managerId') (hname : Plain name) :
    ruleManagerDirectoryPath rulesStoragePath managerId'
      ≠ join [ruleManagerDirectoryPath rulesStoragePath managerId, name] := by
  intro heq
  have hlength := congrArg (fun path => (components path).length) heq
  simp only [ruleManagerDirectoryPath, components_join hname, components_join h', stem_join h,
    List.length_append, List.length_singleton] at hlength
  omega

theorem not_below_directory {managerId managerId' : Bytes} (h : Plain managerId)
    (h' : Plain managerId') :
    ¬ Below (ruleManagerDirectoryPath rulesStoragePath managerId)
      (ruleManagerDirectoryPath rulesStoragePath managerId') := by
  rintro ⟨rest, heq⟩
  rw [List.append_assoc, List.singleton_append] at heq
  have hlength := congrArg (fun path => (components path).length) heq
  simp only [ruleManagerDirectoryPath, components_append_slash, components_join h,
    components_join h', List.length_append, List.length_singleton] at hlength
  have := List.length_pos_iff.2 (components_ne_nil rest)
  omega

theorem plain_rules : Plain (lit "rules.yml") := by decide

theorem plain_alertmanager : Plain (lit "alertmanager.yml") := by decide

/-- The file of a certificate is in the directory of its manager. -/
theorem filePath_eq_join (rulesStoragePath managerId : Bytes) (i : ℕ) (kind : CertKind) :
    ∃ name, Plain name ∧ filePath rulesStoragePath managerId i kind
      = join [ruleManagerDirectoryPath rulesStoragePath managerId, name] := by
  cases kind with
  | ca => exact ⟨_, plain_certFileName i (by decide), rfl⟩
  | cert => exact ⟨_, plain_certFileName i (by decide), rfl⟩
  | key => exact ⟨_, plain_certFileName i (by decide), rfl⟩

/-- A text that is written where there is no directory makes and removes none. -/
theorem hasDirectory_insert_text {disk : Disk} {path : Bytes}
    (h : disk.lookup path ≠ some .directory) (text : Bytes) (managerId : Bytes) :
    HasDirectory rulesStoragePath (disk.insert path (.text text)) managerId ↔
      HasDirectory rulesStoragePath disk managerId := by
  unfold HasDirectory
  refine and_congr_right fun _ => ?_
  by_cases heq : ruleManagerDirectoryPath rulesStoragePath managerId = path
  · rw [heq, AList.lookup_insert]
    exact iff_of_false (by simp) h
  · rw [AList.lookup_insert_ne heq]

theorem SameDirectories.refl (disk : Disk) : SameDirectories rulesStoragePath disk disk :=
  fun _ _ => rfl

theorem SameDirectories.trans {a b c : Disk} (hab : SameDirectories rulesStoragePath a b)
    (hbc : SameDirectories rulesStoragePath b c) : SameDirectories rulesStoragePath a c :=
  fun managerId h => (hbc managerId h).trans (hab managerId h)

/-- What is in the directory of a manager can be written without touching a directory. -/
theorem sameDirectories_insert {managerId name : Bytes} (h : Plain managerId)
    (hname : Plain name) (disk : Disk) (entry : Entry) :
    SameDirectories rulesStoragePath disk
      (disk.insert (join [ruleManagerDirectoryPath rulesStoragePath managerId, name]) entry) :=
  fun _ h' => AList.lookup_insert_ne (file_ne_directory h h' hname)

/-- Disks with the same directories are both in step with the managers, or neither is. -/
theorem SameDirectories.synced_iff {disk disk' : Disk}
    (h : SameDirectories rulesStoragePath disk disk') (managers : GoMap Bytes PromRuleManager) :
    Synced rulesStoragePath ⟨disk', managers⟩ ↔ Synced rulesStoragePath ⟨disk, managers⟩ := by
  refine forall_congr' fun managerId => iff_congr ?_ Iff.rfl
  unfold HasDirectory
  refine and_congr_right fun hplain => ?_
  rw [h managerId hplain]

end Directories

/-! ## What `CreateManager` does -/

section Create

variable {rulesStoragePath : Bytes} {o : Outcomes} {managerId : Bytes}

/-- The call makes the directory: the manager is new, and nothing fails up to there. -/
def MakesDirectory (rulesStoragePath : Bytes) (o : Outcomes) (managerId : Bytes)
    (disk : Disk) : Prop :=
  o.statError = none ∧ ruleManagerDirectoryPath rulesStoragePath managerId ∉ disk ∧
    o.mkdirError = none

/-- Every file of a new manager can be written: the rules, the certificates that are given
    inline, and the configurations. -/
def WritesSucceed (rulesStoragePath : Bytes) (o : Outcomes) (managerId : Bytes)
    (alertManagers : Option AlertmanagerConfigs) : Prop :=
  o.writeError (rulesFilePath rulesStoragePath managerId) = none ∧
    (∀ configs ∈ alertManagers, ∀ v ∈ visits o.order configs, inlineAt configs v = true →
      o.writeError (filePath rulesStoragePath managerId v.1 v.2) = none) ∧
    o.writeError (alertManagerFilePath rulesStoragePath managerId) = none

instance (disk : Disk) : Decidable (MakesDirectory rulesStoragePath o managerId disk) :=
  inferInstanceAs (Decidable (_ ∧ _))

instance (alertManagers : Option AlertmanagerConfigs) :
    Decidable (WritesSucceed rulesStoragePath o managerId alertManagers) :=
  inferInstanceAs (Decidable (_ ∧ (∀ configs ∈ alertManagers, _) ∧ _))

/-- A file of a manager: its rules, its configurations, or a certificate. -/
def ManagerFile (rulesStoragePath managerId path : Bytes) : Prop :=
  path = rulesFilePath rulesStoragePath managerId ∨
    path = alertManagerFilePath rulesStoragePath managerId ∨
    ∃ i kind, path = filePath rulesStoragePath managerId i kind

theorem ManagerFile.eq_join {path : Bytes} (h : ManagerFile rulesStoragePath managerId path) :
    ∃ name, Plain name ∧ path = join [ruleManagerDirectoryPath rulesStoragePath managerId, name] := by
  rcases h with rfl | rfl | ⟨i, kind, rfl⟩
  · exact ⟨_, plain_rules, rfl⟩
  · exact ⟨_, plain_alertmanager, rfl⟩
  · exact filePath_eq_join rulesStoragePath managerId i kind

section Writes

variable {P : Disk → Prop} {disk : Disk}
  (hwrite : ∀ disk path entry, ManagerFile rulesStoragePath managerId path → P disk →
    P (disk.insert path entry))

include hwrite

theorem failedWrite_induction {path : Bytes} (hpath : ManagerFile rulesStoragePath managerId path)
    (h : P disk) : P (failedWrite o disk path) := by
  unfold failedWrite
  split
  · exact hwrite _ _ _ hpath h
  · exact h

theorem writeCertsFrom_induction (vs : List (ℕ × CertKind)) (h : P disk)
    (configs : AlertmanagerConfigs) :
    P (writeCertsFrom rulesStoragePath o managerId vs disk configs).1 := by
  induction vs generalizing disk configs with
  | nil => exact h
  | cons v vs ih =>
    obtain ⟨i, kind⟩ := v
    have hfile : ManagerFile rulesStoragePath managerId
        (filePath rulesStoragePath managerId i kind) := .inr (.inr ⟨i, kind, rfl⟩)
    rw [writeCertsFrom_cons]
    split
    · cases o.writeError (filePath rulesStoragePath managerId i kind) with
      | some err => exact failedWrite_induction hwrite hfile h
      | none => exact ih (hwrite _ _ _ hfile h) _
    · exact ih h configs

theorem writeCerts_induction (h : P disk) (alertManagers : Option AlertmanagerConfigs) :
    P (writeCerts rulesStoragePath o managerId disk alertManagers).1 := by
  cases alertManagers with
  | none => exact h
  | some configs => exact writeCertsFrom_induction hwrite (visits o.order configs) h configs

/-- **What `Create` does to the disk**: it makes the directory and writes files of the manager. -/
theorem create_induction
    (hmade : MakesDirectory rulesStoragePath o managerId disk →
      P (disk.insert (ruleManagerDirectoryPath rulesStoragePath managerId) .directory))
    (hunmade : ¬ MakesDirectory rulesStoragePath o managerId disk → P disk)
    (alertManagers : Option AlertmanagerConfigs) :
    P (create rulesStoragePath o managerId disk alertManagers).1 := by
  unfold create
  cases hstat : o.statError with
  | some err => exact hunmade fun h => Option.some_ne_none err (hstat.symm.trans h.1)
  | none =>
    by_cases hexists : ruleManagerDirectoryPath rulesStoragePath managerId ∈ disk
    · simp only [hexists, if_true]
      exact hunmade fun h => h.2.1 hexists
    simp only [hexists, if_false]
    cases hmkdir : o.mkdirError with
    | some err => exact hunmade fun h => Option.some_ne_none err (hmkdir.symm.trans h.2.2)
    | none =>
      have hdir := hmade ⟨hstat, hexists, hmkdir⟩
      cases o.writeError (rulesFilePath rulesStoragePath managerId) with
      | some err => exact failedWrite_induction hwrite (.inl rfl) hdir
      | none =>
        have hrules := hwrite _ _ (.text (lit "groups: []\n")) (.inl rfl) hdir
        have hcerts := writeCerts_induction (o := o) hwrite hrules alertManagers
        dsimp only
        generalize writeCerts rulesStoragePath o managerId _ alertManagers = r at hcerts
        obtain ⟨disk', after, result⟩ := r
        cases result with
        | some err => exact hcerts
        | none =>
          dsimp only
          cases o.writeError (alertManagerFilePath rulesStoragePath managerId) with
          | some err => exact failedWrite_induction hwrite (.inr (.inl rfl)) hcerts
          | none => exact hwrite _ _ _ (.inr (.inl rfl)) hcerts

end Writes

/-- `writeCerts` succeeds when it can write every certificate that is given inline. -/
theorem writeCertsFrom_eq_none_iff (vs : List (ℕ × CertKind)) (disk : Disk)
    (configs : AlertmanagerConfigs) :
    (writeCertsFrom rulesStoragePath o managerId vs disk configs).2.2 = none ↔
      ∀ v ∈ vs, inlineAt configs v = true →
        o.writeError (filePath rulesStoragePath managerId v.1 v.2) = none := by
  induction vs generalizing disk configs with
  | nil => simp [writeCertsFrom]
  | cons v vs ih =>
    obtain ⟨i, kind⟩ := v
    rw [writeCertsFrom_cons, List.forall_mem_cons]
    by_cases hinline : inlineAt configs (i, kind) = true
    · rw [if_pos hinline]
      simp only [hinline, forall_const]
      cases hwrite : o.writeError (filePath rulesStoragePath managerId i kind) with
      | some err => simp
      | none =>
        dsimp only
        rw [ih]
        simp only [true_and]
        refine forall₂_congr fun w _ => ?_
        -- the certificate just written is no longer inline, and it could be written
        by_cases hw : (i, kind) = w
        · subst hw
          simp [hwrite]
        · have hsame : inlineAt (setCertificateAt configs i kind
              (filePath rulesStoragePath managerId i kind)) w = inlineAt configs w := by
            unfold inlineAt
            rw [certificateAt_setCertificateAt_ne configs i w.1 kind w.2 _ hw]
          rw [hsame]
    · rw [if_neg hinline, ih]
      simp [hinline]

theorem writeCerts_eq_none_iff (disk : Disk) (alertManagers : Option AlertmanagerConfigs) :
    (writeCerts rulesStoragePath o managerId disk alertManagers).2.2 = none ↔
      ∀ configs ∈ alertManagers, ∀ v ∈ visits o.order configs, inlineAt configs v = true →
        o.writeError (filePath rulesStoragePath managerId v.1 v.2) = none := by
  cases alertManagers with
  | none => simp [writeCerts]
  | some configs =>
    simp only [writeCerts, Option.mem_def, Option.some.injEq, forall_eq']
    exact writeCertsFrom_eq_none_iff (visits o.order configs) disk configs

/-- A call that does not get to make the directory has no effect. -/
theorem createManager_of_not_makesDirectory {node : LocalNode}
    (h : ¬ MakesDirectory rulesStoragePath o managerId node.disk) :
    ∃ e, (∀ alertManagers, createManager rulesStoragePath o managerId node alertManagers
        = (node, alertManagers, .error e)) ∧
      if o.statError = none ∧ ruleManagerDirectoryPath rulesStoragePath managerId ∈ node.disk then
        e = .managerExists
      else ∃ err, e = .other err := by
  unfold createManager create
  cases hstat : o.statError with
  | some err => exact ⟨.other err, fun _ => rfl, by simp⟩
  | none =>
    by_cases hexists : ruleManagerDirectoryPath rulesStoragePath managerId ∈ node.disk
    · simp only [hexists, if_true]
      exact ⟨.managerExists, fun _ => rfl, by simp⟩
    · simp only [hexists, if_false]
      cases hmkdir : o.mkdirError with
      | some err => exact ⟨.other err, fun _ => rfl, by simp⟩
      | none => exact absurd ⟨hstat, hexists, hmkdir⟩ h

/-- `Create` once it has made the directory succeeds when the files can be written. -/
theorem create_result_of_makesDirectory {disk : Disk}
    (h : MakesDirectory rulesStoragePath o managerId disk)
    (alertManagers : Option AlertmanagerConfigs) :
    (WritesSucceed rulesStoragePath o managerId alertManagers →
        (create rulesStoragePath o managerId disk alertManagers).2.2
          = .ok (rulesFilePath rulesStoragePath managerId)) ∧
      (¬ WritesSucceed rulesStoragePath o managerId alertManagers →
        ∃ err, (create rulesStoragePath o managerId disk alertManagers).2.2
          = .error (.other err)) := by
  obtain ⟨hstat, hnew, hmkdir⟩ := h
  unfold create WritesSucceed
  simp only [hstat, if_neg hnew, hmkdir]
  cases hrules : o.writeError (rulesFilePath rulesStoragePath managerId) with
  | some err => exact ⟨by simp, fun _ => ⟨err, rfl⟩⟩
  | none =>
    dsimp only
    generalize AList.insert (rulesFilePath rulesStoragePath managerId) _ _ = reached
    rw [← writeCerts_eq_none_iff reached]
    cases writeCerts rulesStoragePath o managerId reached alertManagers with
    | mk disk' rest =>
      obtain ⟨after, result⟩ := rest
      cases result with
      | some err => exact ⟨by simp, fun _ => ⟨err, rfl⟩⟩
      | none =>
        dsimp only
        cases o.writeError (alertManagerFilePath rulesStoragePath managerId) with
        | some err => exact ⟨by simp, fun _ => ⟨err, rfl⟩⟩
        | none => exact ⟨fun _ => rfl, by simp⟩

/-- `CreateManager` once it has made the directory. -/
theorem createManager_of_makesDirectory {node : LocalNode}
    (h : MakesDirectory rulesStoragePath o managerId node.disk)
    (alertManagers : Option AlertmanagerConfigs) :
    ∃ disk, ruleManagerDirectoryPath rulesStoragePath managerId ∈ disk ∧
      (Plain managerId → SameDirectories rulesStoragePath
        (node.disk.insert (ruleManagerDirectoryPath rulesStoragePath managerId) .directory) disk) ∧
      (WritesSucceed rulesStoragePath o managerId alertManagers →
        ∃ manager, (createManager rulesStoragePath o managerId node alertManagers).1
            = ⟨disk, node.promRuleManagers.insert managerId manager⟩ ∧
          errorOf (createManager rulesStoragePath o managerId node alertManagers).2.2
            = o.startError.map .other) ∧
      (¬ WritesSucceed rulesStoragePath o managerId alertManagers →
        (createManager rulesStoragePath o managerId node alertManagers).1
            = ⟨disk, node.promRuleManagers⟩ ∧
          ∃ err, errorOf (createManager rulesStoragePath o managerId node alertManagers).2.2
            = some (.other err)) := by
  obtain ⟨hok, herror⟩ := create_result_of_makesDirectory h alertManagers
  have hmade : ruleManagerDirectoryPath rulesStoragePath managerId ∈
      (create rulesStoragePath o managerId node.disk alertManagers).1 :=
    create_induction (P := (ruleManagerDirectoryPath rulesStoragePath managerId ∈ ·))
      (fun _ _ _ _ hmem => (AList.mem_insert _).2 (.inr hmem))
      (fun _ => (AList.mem_insert _).2 (.inl rfl)) (fun hnot => absurd h hnot) alertManagers
  have hsame : Plain managerId → SameDirectories rulesStoragePath
      (node.disk.insert (ruleManagerDirectoryPath rulesStoragePath managerId) .directory)
      (create rulesStoragePath o managerId node.disk alertManagers).1 := by
    intro hplain
    refine create_induction (P := SameDirectories rulesStoragePath _)
      (fun disk path entry hpath hsame => ?_) (fun _ => .refl _) (fun hnot => absurd h hnot)
      alertManagers
    obtain ⟨name, hname, rfl⟩ := hpath.eq_join
    exact hsame.trans (sameDirectories_insert hplain hname disk entry)
  unfold createManager
  cases hcreate : create rulesStoragePath o managerId node.disk alertManagers with
  | mk disk rest =>
    obtain ⟨after, result⟩ := rest
    rw [hcreate] at hsame hok herror hmade
    refine ⟨disk, hmade, hsame, fun hwrites => ?_, fun hwrites => ?_⟩
    · cases hok hwrites
      refine ⟨((PromRuleManager.create (rulesFilePath rulesStoragePath managerId) after).start
        (.loaded [] o.startError)).1, ?_⟩
      cases o.startError <;> exact ⟨rfl, rfl⟩
    · obtain ⟨err, herr⟩ := herror hwrites
      cases herr
      exact ⟨rfl, err, rfl⟩

end Create

/-- What rule groups take from outside, in the examples. -/
def plainLibrary : RuleLibrary := ⟨fun _ _ _ => 0, fun _ => []⟩

end MetricStore.Rules
