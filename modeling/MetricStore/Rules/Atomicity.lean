import MetricStore.Common.Run
import MetricStore.Rules.LocalRuleManager

/-!
# Calls that change everything or nothing

A call of `LocalRuleManager` (`internal/rules/local_rule_manager.go`, lines 23–58) has two
stores: the files below `rulesStoragePath` and the managers in memory. It changes them one
after the other, without a way back.

The theorem is about all identifiers. One that is not the name of a file (`a/b`, `..`) has
its directory elsewhere, if at all: a `CreateManager` that makes it leaves a manager without
a directory of its name.

A call that does not return has returned no error. `DeleteManager` has removed the files of
a manager that it then cannot stop; an `UpsertRuleGroup` that waits for another manager has
written its file, and the managers are still those of the directories.

Results:
* `atomic_iff`: from a state in which the directories are those of the running managers,
  a call keeps that, and changes nothing if it returns an error, exactly when it does not
  fail late and misplaces no manager.
* `run_synced`: so do all calls of a run of this kind.
* `failed_create_leaves_directory`: a `CreateManager` that cannot write the rules leaves a
  directory without a manager, and the next one is told that the manager exists.
-/

namespace MetricStore.Rules

open MetricStore.Common MetricStore.Common.FilePath

/-- The same files and the same managers, up to the groups that these have loaded. -/
def SameState (node node' : LocalNode) : Prop :=
  (∀ path, node'.disk.lookup path = node.disk.lookup path) ∧
    ∀ managerId, (node'.promRuleManagers.lookup managerId).map PromRuleManager.unloaded =
      (node.promRuleManagers.lookup managerId).map PromRuleManager.unloaded

/-- A call from `node` with this result is atomic: it changes nothing if it returns an error,
    and leaves the directories and the running managers in step. -/
structure Atomic (rulesStoragePath : Bytes) (node : LocalNode)
    (result : LocalNode × Reply) : Prop where
  unchanged : ∀ e, result.2 = .error e → SameState node result.1
  synced : Synced rulesStoragePath result.1

theorem SameState.refl (node : LocalNode) : SameState node node := ⟨fun _ => rfl, fun _ => rfl⟩

theorem SameState.mem_iff {node node' : LocalNode} (h : SameState node node')
    (managerId : Bytes) :
    managerId ∈ node'.promRuleManagers ↔ managerId ∈ node.promRuleManagers := by
  have hmap := congrArg Option.isSome (h.2 managerId)
  rw [Option.isSome_map, Option.isSome_map] at hmap
  rw [← AList.lookup_isSome, ← AList.lookup_isSome, hmap]

theorem SameState.synced {rulesStoragePath : Bytes} {node node' : LocalNode}
    (h : SameState node node') (hsynced : Synced rulesStoragePath node) :
    Synced rulesStoragePath node' := by
  intro managerId
  rw [h.mem_iff, ← hsynced managerId, HasDirectory, HasDirectory, h.1]

section Atomic

variable (lib : RuleLibrary) (marshal : PromRuleGroup → Bytes) (rulesStoragePath : Bytes)
  (o : CallOutcomes)

/-- A call that fails after it has changed something.
    * `CreateManager` fails after it has made the directory.
    * `DeleteManager` fails after `RemoveAll` has removed something: by its error, because
      what it has removed is not the directory of a running manager, or because it is the
      directory of one that does not stop, so that the call does not return.
    * `UpsertRuleGroup` fails after it has changed the file of the rules, because the write
      stops in the middle or a manager does not reload. -/
def FailsLate (node : LocalNode) : Call → Prop
  | .createManager managerId alertManagers =>
    MakesDirectory rulesStoragePath o.toOutcomes managerId node.disk ∧
      ¬ (WritesSucceed rulesStoragePath o.toOutcomes managerId alertManagers ∧
        o.startError = none)
  | .deleteManager managerId =>
    o.statError = none ∧ ruleManagerDirectoryPath rulesStoragePath managerId ∈ node.disk ∧
      match o.removeError with
      | some (_, removed) => ∃ path ∈ removed,
          Below (ruleManagerDirectoryPath rulesStoragePath managerId) path ∧ path ∈ node.disk
      | none => ∀ m ∈ node.promRuleManagers.lookup managerId, ¬ m.CanStop
  | .upsertRuleGroup managerId ruleGroup =>
    o.statError = none ∧ ruleManagerDirectoryPath rulesStoragePath managerId ∈ node.disk ∧
      node.disk.lookup (rulesFilePath rulesStoragePath managerId) ≠ some .directory ∧
      ∃ promRuleGroup, ruleGroup.convertToPromRuleGroup lib = .ok promRuleGroup ∧
        match o.writeError (rulesFilePath rulesStoragePath managerId) with
        | some _ => ∃ text ∈ o.remains (rulesFilePath rulesStoragePath managerId),
            node.disk.lookup (rulesFilePath rulesStoragePath managerId) ≠ some (.text text)
        | none =>
          (∃ e, (PromRuleManagers.reload o
              (node.disk.insert (rulesFilePath rulesStoragePath managerId)
                (.text (marshal promRuleGroup))) node.promRuleManagers).2 = .error e) ∧
            node.disk.lookup (rulesFilePath rulesStoragePath managerId)
              ≠ some (.text (marshal promRuleGroup))

/-- A call that makes a directory for an identifier that is not the name of a file: it is not
    a directory of this name in the storage path. -/
def Misplaces (node : LocalNode) : Call → Prop
  | .createManager managerId _ =>
    MakesDirectory rulesStoragePath o.toOutcomes managerId node.disk ∧ ¬ Plain managerId
  | _ => False

variable {lib marshal rulesStoragePath o} {node : LocalNode} {managerId : Bytes}

/-- A call without effect is atomic. -/
theorem Atomic.of_unchanged (hsynced : Synced rulesStoragePath node) (reply : Reply) :
    Atomic rulesStoragePath node (node, reply) :=
  ⟨fun _ _ => .refl node, hsynced⟩

theorem Synced.plain (hsynced : Synced rulesStoragePath node)
    (h : managerId ∈ node.promRuleManagers) : Plain managerId :=
  ((hsynced managerId).2 h).1

/-- A new manager with its directory. -/
theorem Synced.insert (hsynced : Synced rulesStoragePath node) (hplain : Plain managerId)
    (manager : PromRuleManager) :
    Synced rulesStoragePath
      ⟨node.disk.insert (ruleManagerDirectoryPath rulesStoragePath managerId) .directory,
        node.promRuleManagers.insert managerId manager⟩ := by
  intro id
  rw [AList.mem_insert, ← hsynced id]
  unfold HasDirectory
  by_cases hid : id = managerId
  · subst hid
    simp [hplain]
  · simp only [hid, false_or]
    refine and_congr_right fun hplain' => ?_
    rw [AList.lookup_insert_ne fun heq => hid (directory_injective hplain' hplain heq)]

theorem lookup_ne_none {disk : Disk} {path : Bytes} (h : path ∈ disk) :
    disk.lookup path ≠ none := by
  rw [← AList.lookup_isSome, Option.isSome_iff_ne_none] at h
  exact h

/-- A path that is on one disk only. -/
theorem not_sameState_of_mem {node' : LocalNode} {path : Bytes} (hbefore : path ∉ node.disk)
    (hafter : path ∈ node'.disk) : ¬ SameState node node' := by
  intro hstate
  have hlookup := hstate.1 path
  rw [AList.lookup_eq_none.2 hbefore] at hlookup
  exact lookup_ne_none hafter hlookup

theorem atomic_createManager_iff (hsynced : Synced rulesStoragePath node)
    (alertManagers : Option AlertmanagerConfigs) :
    Atomic rulesStoragePath node ((localRuleManager lib marshal rulesStoragePath o).perform node
        (.createManager managerId alertManagers)) ↔
      ¬ FailsLate lib marshal rulesStoragePath o node (.createManager managerId alertManagers) ∧
        ¬ Misplaces rulesStoragePath o node (.createManager managerId alertManagers) := by
  by_cases hmakes : MakesDirectory rulesStoragePath o.toOutcomes managerId node.disk
  · obtain ⟨disk, hmade, hsame, hok, herror⟩ :=
      createManager_of_makesDirectory hmakes alertManagers
    simp only [RuleManager.perform, localRuleManager, FailsLate, Misplaces, hmakes, true_and,
      not_not]
    -- the directory of the manager is there afterwards, and it was not before
    have hnew : ∀ managers, ¬ SameState node ⟨disk, managers⟩ := fun managers =>
      not_sameState_of_mem hmakes.2.1 hmade
    by_cases hwrites : WritesSucceed rulesStoragePath o.toOutcomes managerId alertManagers
    · obtain ⟨manager, hnode, herr⟩ := hok hwrites
      rw [hnode, herr]
      simp only [hwrites, true_and]
      constructor
      · intro h
        refine ⟨?_, h.synced.plain ((AList.mem_insert _).2 (.inl rfl))⟩
        by_contra hstart
        obtain ⟨err, herr⟩ := Option.ne_none_iff_exists'.1 hstart
        exact hnew _ (h.unchanged (.other err) (by rw [herr]; rfl))
      · rintro ⟨hstart, hplain⟩
        refine ⟨fun e he => ?_, ?_⟩
        · rw [hstart] at he
          cases he
        · rw [(hsame hplain).synced_iff]
          exact hsynced.insert hplain _
    · obtain ⟨hnode, err, herr⟩ := herror hwrites
      rw [hnode, herr]
      exact iff_of_false (fun h => hnew _ (h.unchanged _ rfl)) fun h => hwrites h.1.1
  · obtain ⟨e, he, -⟩ := createManager_of_not_makesDirectory hmakes
    simp only [RuleManager.perform, localRuleManager, he]
    exact iff_of_true (.of_unchanged hsynced _) ⟨fun h => hmakes h.1, fun h => hmakes h.1⟩

theorem lookup_removeAll_self (disk : Disk) (directory : Bytes) :
    (disk.eraseAll (disk.keys.filter fun p => p = directory ∨ Below directory p)).lookup directory
      = none := by
  rw [GoMap.lookup_eraseAll]
  split_ifs with hkeys
  · rfl
  · refine AList.lookup_eq_none.2 fun hmem => hkeys ?_
    have := AList.mem_keys.1 hmem
    simp [this]

/-- `RemoveAll` of a manager's directory leaves the other directories. -/
theorem lookup_removeAll (hplain : Plain managerId) (disk : Disk) {id : Bytes} (hid : Plain id) :
    (disk.eraseAll (disk.keys.filter fun p =>
        p = ruleManagerDirectoryPath rulesStoragePath managerId ∨
          Below (ruleManagerDirectoryPath rulesStoragePath managerId) p)).lookup
        (ruleManagerDirectoryPath rulesStoragePath id)
      = if id = managerId then none
        else disk.lookup (ruleManagerDirectoryPath rulesStoragePath id) := by
  by_cases heq : id = managerId
  · rw [heq, if_pos rfl, lookup_removeAll_self]
  · have hbelow : ¬ Below (ruleManagerDirectoryPath rulesStoragePath managerId)
        (ruleManagerDirectoryPath rulesStoragePath id) := not_below_directory hplain hid
    have hne : ruleManagerDirectoryPath rulesStoragePath id
        ≠ ruleManagerDirectoryPath rulesStoragePath managerId :=
      fun h => heq (directory_injective hid hplain h)
    rw [GoMap.lookup_eraseAll]
    simp [hne, hbelow, heq]

/-- A manager is gone, with its directory. -/
theorem Synced.removeAll (hsynced : Synced rulesStoragePath node) (hplain : Plain managerId) :
    Synced rulesStoragePath
      ⟨node.disk.eraseAll (node.disk.keys.filter fun p =>
          p = ruleManagerDirectoryPath rulesStoragePath managerId ∨
            Below (ruleManagerDirectoryPath rulesStoragePath managerId) p),
        node.promRuleManagers.erase managerId⟩ := by
  intro id
  rw [AList.mem_erase, ← hsynced id]
  unfold HasDirectory
  constructor
  · rintro ⟨hid, hlookup⟩
    rw [lookup_removeAll hplain _ hid] at hlookup
    split_ifs at hlookup with heq
    exact ⟨heq, hid, hlookup⟩
  · rintro ⟨heq, hid, hlookup⟩
    refine ⟨hid, ?_⟩
    rw [lookup_removeAll hplain _ hid, if_neg heq, hlookup]

/-- A removal that stops in the middle changes nothing if it has not got to a file. -/
theorem sameState_eraseAll_iff {directory : Bytes} {removed : List Bytes} :
    SameState node
        ⟨node.disk.eraseAll (removed.filter fun p => Below directory p), node.promRuleManagers⟩ ↔
      ¬ ∃ path ∈ removed, Below directory path ∧ path ∈ node.disk := by
  constructor
  · rintro h ⟨path, hremoved, hbelow, hmem⟩
    have hlookup := h.1 path
    dsimp only at hlookup
    rw [GoMap.lookup_eraseAll, if_pos (by simp [hremoved, hbelow])] at hlookup
    exact lookup_ne_none hmem hlookup.symm
  · intro hnone
    refine ⟨fun path => ?_, fun _ => rfl⟩
    dsimp only
    rw [GoMap.lookup_eraseAll]
    split_ifs with hremoved
    · simp only [List.mem_filter, decide_eq_true_eq] at hremoved
      exact (AList.lookup_eq_none.2 fun hmem => hnone ⟨path, hremoved.1, hremoved.2, hmem⟩).symm
    · rfl

/-- `PromRuleManagers.Delete` after the directory of the manager has been removed. -/
theorem atomic_delete_iff (hsynced : Synced rulesStoragePath node)
    (hdir : ruleManagerDirectoryPath rulesStoragePath managerId ∈ node.disk) :
    Atomic rulesStoragePath node
        (⟨node.disk.eraseAll (node.disk.keys.filter fun p =>
            p = ruleManagerDirectoryPath rulesStoragePath managerId ∨
              Below (ruleManagerDirectoryPath rulesStoragePath managerId) p),
          (PromRuleManagers.delete managerId node.promRuleManagers).1⟩,
          (PromRuleManagers.delete managerId node.promRuleManagers).2) ↔
      ¬ ∀ m ∈ node.promRuleManagers.lookup managerId, ¬ m.CanStop := by
  have hgone := lookup_removeAll_self node.disk
    (ruleManagerDirectoryPath rulesStoragePath managerId)
  unfold PromRuleManagers.delete
  cases hm : node.promRuleManagers.lookup managerId with
  | none =>
    -- what was removed was not the directory of a manager
    refine iff_of_false (fun h => ?_) (by simp)
    have hlookup := (h.unchanged _ rfl).1 (ruleManagerDirectoryPath rulesStoragePath managerId)
    exact lookup_ne_none hdir (hlookup.symm.trans hgone)
  | some m =>
    have hplain := hsynced.plain (AList.lookup_isSome.1 (by rw [hm]; rfl))
    by_cases hstop : m.CanStop
    · simp only [hstop, if_true]
      exact iff_of_true ⟨nofun, hsynced.removeAll hplain⟩ (by simpa using hstop)
    · -- the manager stays, without a directory
      simp only [hstop, if_false]
      refine iff_of_false (fun h => ?_) (by simpa using hstop)
      have hlookup := ((h.synced managerId).2 ((AList.mem_insert _).2 (.inl rfl))).2
      rw [hgone] at hlookup
      cases hlookup

theorem atomic_deleteManager_iff (hsynced : Synced rulesStoragePath node) :
    Atomic rulesStoragePath node ((localRuleManager lib marshal rulesStoragePath o).perform node
        (.deleteManager managerId)) ↔
      ¬ FailsLate lib marshal rulesStoragePath o node (.deleteManager managerId) := by
  simp only [RuleManager.perform, localRuleManager, LocalRuleManager.deleteManager,
    RuleManagerFiles.delete, FailsLate]
  cases hstat : o.statError with
  | some err => exact iff_of_true (.of_unchanged hsynced _) (by simp)
  | none =>
    by_cases hdir : ruleManagerDirectoryPath rulesStoragePath managerId ∈ node.disk
    · simp only [hdir, if_true, true_and, removeAll]
      cases o.removeError with
      | some failure =>
        obtain ⟨err, removed⟩ := failure
        dsimp only [Option.map_some]
        rw [← sameState_eraseAll_iff]
        exact ⟨fun h => h.unchanged _ rfl, fun h => ⟨fun _ _ => h, h.synced hsynced⟩⟩
      | none => exact atomic_delete_iff hsynced hdir
    · simp only [hdir, if_false, false_and, and_false, not_false_eq_true, iff_true]
      exact .of_unchanged hsynced _

/-- A file that is written anew changes nothing if it held the same before. -/
theorem sameState_insert_iff {path : Bytes} {entry : Entry}
    {managers : GoMap Bytes PromRuleManager}
    (hmanagers : ∀ id, (managers.lookup id).map PromRuleManager.unloaded =
      (node.promRuleManagers.lookup id).map PromRuleManager.unloaded) :
    SameState node ⟨node.disk.insert path entry, managers⟩ ↔
      node.disk.lookup path = some entry := by
  constructor
  · intro h
    have hlookup := h.1 path
    dsimp only at hlookup
    rw [AList.lookup_insert] at hlookup
    exact hlookup.symm
  · intro h
    refine ⟨fun p => ?_, hmanagers⟩
    by_cases hp : p = path
    · rw [hp, AList.lookup_insert, h]
    · exact AList.lookup_insert_ne hp

/-- A text that is written where there is no directory, and managers of which at most the
    groups have changed if the call returns. -/
theorem atomic_write_iff (hsynced : Synced rulesStoragePath node) {path : Bytes}
    (hpath : node.disk.lookup path ≠ some .directory) (text : Bytes)
    {managers : GoMap Bytes PromRuleManager} {reply : Reply}
    (hmem : ∀ id, id ∈ managers ↔ id ∈ node.promRuleManagers)
    (hmanagers : reply ≠ .blocked → ∀ id, (managers.lookup id).map PromRuleManager.unloaded =
      (node.promRuleManagers.lookup id).map PromRuleManager.unloaded) :
    Atomic rulesStoragePath node (⟨node.disk.insert path (.text text), managers⟩, reply) ↔
      ¬ ((∃ e, reply = .error e) ∧ node.disk.lookup path ≠ some (.text text)) := by
  have hsame : ∀ e, reply = .error e → (SameState node
      ⟨node.disk.insert path (.text text), managers⟩ ↔
        node.disk.lookup path = some (.text text)) := by
    rintro e rfl
    exact sameState_insert_iff (hmanagers nofun)
  constructor
  · rintro h ⟨⟨e, he⟩, hne⟩
    exact hne ((hsame e he).1 (h.unchanged e he))
  · intro h
    refine ⟨fun e he => (hsame e he).2 ?_, fun id => ?_⟩
    · by_contra hne
      exact h ⟨⟨e, he⟩, hne⟩
    · rw [hasDirectory_insert_text hpath, hmem]
      exact hsynced id

theorem atomic_upsertRuleGroup_iff (hsynced : Synced rulesStoragePath node)
    (ruleGroup : RuleGroup) :
    Atomic rulesStoragePath node ((localRuleManager lib marshal rulesStoragePath o).perform node
        (.upsertRuleGroup managerId ruleGroup)) ↔
      ¬ FailsLate lib marshal rulesStoragePath o node (.upsertRuleGroup managerId ruleGroup) := by
  simp only [RuleManager.perform, localRuleManager, LocalRuleManager.upsertRuleGroup,
    RuleManagerFiles.upsertRuleGroup, FailsLate]
  cases hconvert : ruleGroup.convertToPromRuleGroup lib with
  | error err => exact iff_of_true (.of_unchanged hsynced _) (by simp)
  | ok promRuleGroup =>
    cases hstat : o.statError with
    | some err => exact iff_of_true (.of_unchanged hsynced _) (by simp)
    | none =>
      by_cases hdir : ruleManagerDirectoryPath rulesStoragePath managerId ∈ node.disk
      · by_cases hfile : node.disk.lookup (rulesFilePath rulesStoragePath managerId)
            = some .directory
        · simp only [hdir, hfile, if_true]
          exact iff_of_true (.of_unchanged hsynced _) (by simp)
        · simp only [hdir, hfile, if_true, if_false, true_and, ne_eq, not_false_eq_true,
            Except.ok.injEq, exists_eq_left']
          cases o.writeError (rulesFilePath rulesStoragePath managerId) with
          | some err =>
            dsimp only [failedWrite]
            cases o.remains (rulesFilePath rulesStoragePath managerId) with
            | none => exact iff_of_true (.of_unchanged hsynced _) (by simp)
            | some text =>
              dsimp only
              rw [atomic_write_iff hsynced hfile text (fun _ => Iff.rfl) fun _ _ => rfl]
              simp
          | none =>
            exact atomic_write_iff hsynced hfile _ (PromRuleManagers.mem_reloadFrom _ _)
              (PromRuleManagers.unloaded_reloadFrom _)
      · simp only [hdir, if_false, false_and, and_false, not_false_eq_true, iff_true]
        exact .of_unchanged hsynced _

/-- **When a call is atomic.** From a state in which the directories are those of the running
    managers, a call about any identifier leaves them so, and changes no file and no manager
    if it returns an error, exactly when it does not fail late and makes no directory for an
    identifier that is not the name of a file. -/
theorem atomic_iff (lib : RuleLibrary) (marshal : PromRuleGroup → Bytes)
    (rulesStoragePath : Bytes) (o : CallOutcomes) (node : LocalNode) (call : Call)
    (hsynced : Synced rulesStoragePath node) :
    Atomic rulesStoragePath node
        ((localRuleManager lib marshal rulesStoragePath o).perform node call) ↔
      ¬ FailsLate lib marshal rulesStoragePath o node call ∧
        ¬ Misplaces rulesStoragePath o node call := by
  cases call with
  | createManager managerId alertManagers => exact atomic_createManager_iff hsynced alertManagers
  | deleteManager managerId =>
    rw [atomic_deleteManager_iff hsynced]
    exact (and_iff_left id).symm
  | upsertRuleGroup managerId ruleGroup =>
    rw [atomic_upsertRuleGroup_iff hsynced ruleGroup]
    exact (and_iff_left id).symm

theorem synced_empty (rulesStoragePath : Bytes) : Synced rulesStoragePath ⟨∅, ∅⟩ := by
  intro managerId
  simp [HasDirectory]

/-- An alertmanager whose CA is given inline. -/
def withInlineCA : AlertmanagerConfig where
  serviceDiscovery := ⟨lit "static_configs", []⟩
  httpClient := ⟨none, [], [], [],
    ⟨lit "-----BEGIN CERTIFICATE-----a-----END CERTIFICATE-----", [], [], [], false⟩⟩
  scheme := lit "https"
  pathPrefix := []
  timeout := 10000000000
  apiVersion := lit "v2"
  relabelConfigs := []

/-- A node with a running manager. -/
def nodeWithA : LocalNode :=
  ((localRuleManager plainLibrary PromRuleGroup.name (lit "/var/rules") .allSucceed).perform
    ⟨∅, ∅⟩ (.createManager (lit "a") none)).1

theorem synced_nodeWithA : Synced (lit "/var/rules") nodeWithA :=
  ((atomic_createManager_iff (synced_empty _) none).2
    ⟨fun h => h.2 ⟨by decide, rfl⟩, fun h => h.2 (by decide)⟩).synced

theorem atomic_secondManager :
    Atomic (lit "/var/rules") nodeWithA
      ((localRuleManager plainLibrary PromRuleGroup.name (lit "/var/rules") .allSucceed).perform
        nodeWithA (.createManager (lit "m") (some [withInlineCA]))) :=
  (atomic_iff plainLibrary PromRuleGroup.name (lit "/var/rules") .allSucceed nodeWithA
    (.createManager (lit "m") (some [withInlineCA])) synced_nodeWithA).2
    ⟨fun h => h.2 ⟨by decide, rfl⟩, fun h => h.2 (by decide)⟩

/-- The disk is full: directories can be made, and files cannot be written. -/
def diskFull : CallOutcomes where
  statError := none
  mkdirError := none
  writeError _ := some (lit "no space left on device")
  remains _ := some []
  startError := none
  order := ⟨id, .refl⟩
  removeError := none
  reload _ _ _ := .loaded [] none
  reloadOrder := ⟨id, .refl⟩

/-- An empty node after a `CreateManager` for which the disk is full. -/
def halfCreated : LocalNode × Reply :=
  (localRuleManager plainLibrary PromRuleGroup.name (lit "/var/rules") diskFull).perform ⟨∅, ∅⟩
    (.createManager (lit "m") none)

/-- **A failed `CreateManager` leaves a directory**: the rules cannot be written, the call
    fails, and the directory stays without a manager. When there is space again, the next
    `CreateManager` is told that the manager exists. -/
theorem failed_create_leaves_directory :
    Synced (lit "/var/rules") ⟨∅, ∅⟩ ∧
      halfCreated.2 = .error (.other (lit "no space left on device")) ∧
      ¬ SameState ⟨∅, ∅⟩ halfCreated.1 ∧ ¬ Synced (lit "/var/rules") halfCreated.1 ∧
      ((localRuleManager plainLibrary PromRuleGroup.name (lit "/var/rules") .allSucceed).perform
        halfCreated.1 (.createManager (lit "m") none)).2 = .error .managerExists := by
  refine ⟨synced_empty _, by decide, fun h => ?_, fun h => ?_, by decide⟩
  · exact absurd (h.1 (lit "/var/rules/m")) (by decide)
  · exact absurd ((h (lit "m")).1 (by decide)) (by decide)

end Atomic

/-! ## Runs -/

section Runs

variable {lib : RuleLibrary} {marshal : PromRuleGroup → Bytes} {rulesStoragePath : Bytes}

theorem synced_perform {o : CallOutcomes} {node : LocalNode} {call : Call}
    (hlate : ¬ FailsLate lib marshal rulesStoragePath o node call)
    (hplaced : ¬ Misplaces rulesStoragePath o node call) (hsynced : Synced rulesStoragePath node) :
    Synced rulesStoragePath
      ((localRuleManager lib marshal rulesStoragePath o).perform node call).1 := by
  cases call with
  | createManager managerId alertManagers =>
    exact ((atomic_createManager_iff hsynced alertManagers).2 ⟨hlate, hplaced⟩).synced
  | deleteManager managerId => exact ((atomic_deleteManager_iff hsynced).2 hlate).synced
  | upsertRuleGroup managerId ruleGroup =>
    exact ((atomic_upsertRuleGroup_iff hsynced ruleGroup).2 hlate).synced

/-- **After any run** of calls that do not fail late and misplace no manager, the directories
    are those of the running managers. -/
theorem run_synced {node node' : LocalNode} {calls : List (CallOutcomes × Call)}
    (hsynced : Synced rulesStoragePath node)
    (hcalls : Meets (fun node (c : CallOutcomes × Call) =>
        some ((localRuleManager lib marshal rulesStoragePath c.1).perform node c.2).1)
      (fun node c => ¬ FailsLate lib marshal rulesStoragePath c.1 node c.2 ∧
        ¬ Misplaces rulesStoragePath c.1 node c.2)
      node calls)
    (hrun : run (fun node (c : CallOutcomes × Call) =>
        some ((localRuleManager lib marshal rulesStoragePath c.1).perform node c.2).1)
      node calls = some node') :
    Synced rulesStoragePath node' := by
  refine run_invariant _ (fun node c node' hnode hcall hstep => ?_) hsynced hcalls hrun
  cases hstep
  exact synced_perform hcall.1 hcall.2 hnode

end Runs

end MetricStore.Rules
