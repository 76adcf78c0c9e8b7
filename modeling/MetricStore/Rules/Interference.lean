import MetricStore.Rules.LocalRuleManager

/-!
# Rule managers that disturb each other

Model of the steps of `PromRuleManager.Reload` (`internal/rules/prom_manager.go`, lines
98–125), by the disk, and `LocalRuleManager.UpsertRuleGroup` over them
(`internal/rules/local_rule_manager.go`, lines 46–58).

`PromRuleManagers.Reload` visits all managers in the order of a map, and stops at the first
error. So a call about one manager returns the error of another, and the managers after that
one have not loaded their rules. (`DeleteAll`, next to it, goes on and collects the errors.)
A manager that was not started and has a group makes the call wait for ever, with a rule
file that is accepted.

What Prometheus does with a rule file and with the configuration of an alertmanager is a
parameter. It may depend on any file; a configuration names the files of its certificates.

Results:
* `fault_iff`: what can keep a manager from reloading.
* `undisturbed_iff`: in two states that agree on a manager, `UpsertRuleGroup` on it returns
  the same, and has loaded the group if it succeeds, in all orders exactly if the faults of
  the managers are the same in both states, and at most one, and none keeps the call from
  returning.
* `rejected_file_disturbs`: a manager whose rule file is rejected makes the call about another
  one fail.
* `unstarted_manager_blocks`: a manager that was not started, and whose file has been
  corrected, keeps the call about another one from returning.
-/

namespace MetricStore.Rules

open MetricStore.Common

/-! ## Reloading -/

/-- What reloading takes from Prometheus: the groups that `LoadGroups` makes of a rule file
    and what it holds, if it accepts it; the error of `newAlertmanagerSet`, which reads
    certificates from the disk; and the error of `json.Marshal` for a configuration. -/
structure Prometheus where
  loadGroups : Bytes → Option Entry → Option (List Bytes)
  clientError : Disk → AlertmanagerConfig → Option Bytes
  marshalError : AlertmanagerConfig → Option Bytes

/-- The error of `Manager.Update`, which has logged those of `LoadGroups`. -/
def updateError : Bytes := lit "error loading rules, previous rule set restored"

section Reload

variable (prom : Prometheus) (disk : Disk)

/-- `ApplyConfig` of the notifier: the first error of a range over `ToMap`. -/
def applyConfig (order : MapOrder ℕ) (configs : AlertmanagerConfigs) : Option Bytes :=
  (order.iterate (List.range configs.length)).findSome? fun i =>
    configs[i]?.bind (prom.clientError disk)

/-- `ApplyAlertmanagerConfig` (`internal/discovery`): the first error of the list. -/
def applyAlertmanagerConfig (configs : AlertmanagerConfigs) : Option Bytes :=
  configs.findSome? prom.marshalError

/-- The configurations are applied (lines 104–122). -/
def applyAll (order : MapOrder ℕ) : Option AlertmanagerConfigs → Option Bytes
  | none => none
  | some configs =>
    (applyConfig prom disk order configs).or (applyAlertmanagerConfig prom configs)

/-- The groups of a manager's rule file. -/
def Prometheus.groupsOf (m : PromRuleManager) : Option (List Bytes) :=
  prom.loadGroups m.promRuleFile (disk.lookup m.promRuleFile)

/-- The steps of `PromRuleManager.Reload` (lines 98–125). -/
def Prometheus.reload (order : MapOrder ℕ) (m : PromRuleManager) : ReloadOutcome :=
  match prom.groupsOf disk m with
  | none => .rejected updateError
  | some groups => .loaded groups (applyAll prom disk order m.alertManagers)

end Reload

/-- The orders of the ranges of a call: over the managers, and over the alertmanagers of
    each. -/
structure ReloadOrder where
  managers : MapOrder Bytes
  alertmanagers : Bytes → MapOrder ℕ

/-- The managers reload as Prometheus does, in this order; the operations on files end as
    in `files`. -/
def CallOutcomes.reloadedBy (files : CallOutcomes) (prom : Prometheus) (order : ReloadOrder) :
    CallOutcomes :=
  { files with
    reload := fun disk id m => prom.reload disk (order.alertmanagers id) m
    reloadOrder := order.managers }

section Upsert

variable (lib : RuleLibrary) (marshal : PromRuleGroup → Bytes) (rulesStoragePath : Bytes)
  (files : CallOutcomes) (managerId : Bytes) (ruleGroup : RuleGroup)

/-- The file of the rules has been written. -/
def written (promRuleGroup : PromRuleGroup) (disk : Disk) : Disk :=
  disk.insert (rulesFilePath rulesStoragePath managerId) (.text (marshal promRuleGroup))

/-- The call gets to `Reload` with this group. -/
structure GetsToReload (disk : Disk) (promRuleGroup : PromRuleGroup) : Prop where
  converted : ruleGroup.convertToPromRuleGroup lib = .ok promRuleGroup
  stat : files.statError = none
  directory : ruleManagerDirectoryPath rulesStoragePath managerId ∈ disk
  file : disk.lookup (rulesFilePath rulesStoragePath managerId) ≠ some .directory
  write : files.writeError (rulesFilePath rulesStoragePath managerId) = none

end Upsert

/-! ## Faults -/

section Faults

variable {prom : Prometheus} {disk : Disk} {m : PromRuleManager} {configs : AlertmanagerConfigs}
  {err : Bytes} {reply : Reply}

/-- What can keep a manager from reloading, with the reply.
    * A call that waits holds its lock.
    * Its rule file is rejected.
    * It has groups that are not evaluated, and they are to be replaced.
    * A client for one of its alertmanagers cannot be made.
    * The first of its configurations that cannot be marshalled. -/
inductive Fault (prom : Prometheus) (disk : Disk) (m : PromRuleManager) : Reply → Prop
  | stuck (hstate : m.state = .stuck) : Fault prom disk m .blocked
  | rules (hstate : m.state ≠ .stuck) (hload : prom.groupsOf disk m = none) :
    Fault prom disk m (.error (.other updateError))
  | waits (hstop : ¬ m.CanStop) (hload : prom.groupsOf disk m ≠ none) : Fault prom disk m .blocked
  | client {configs : AlertmanagerConfigs} {c : AlertmanagerConfig} {err : Bytes}
    (hstop : m.CanStop) (hload : prom.groupsOf disk m ≠ none)
    (hconfigs : m.alertManagers = some configs) (hc : c ∈ configs)
    (herr : prom.clientError disk c = some err) : Fault prom disk m (.error (.other err))
  | marshal {configs : AlertmanagerConfigs} {err : Bytes}
    (hstop : m.CanStop) (hload : prom.groupsOf disk m ≠ none)
    (hconfigs : m.alertManagers = some configs)
    (hclients : ∀ c ∈ configs, prom.clientError disk c = none)
    (herr : applyAlertmanagerConfig prom configs = some err) :
    Fault prom disk m (.error (.other err))

/-- The faults of the managers. -/
def faults (prom : Prometheus) (disk : Disk) (managers : GoMap Bytes PromRuleManager) :
    Set Reply :=
  {reply | ∃ id m, managers.lookup id = some m ∧ Fault prom disk m reply}

theorem exists_index_iff (f : AlertmanagerConfig → Option Bytes) :
    (∃ i ∈ List.range configs.length, configs[i]?.bind f = some err) ↔
      ∃ c ∈ configs, f c = some err := by
  constructor
  · rintro ⟨i, -, h⟩
    obtain ⟨c, hc, herr⟩ := Option.bind_eq_some_iff.mp h
    exact ⟨c, List.mem_of_getElem? hc, herr⟩
  · rintro ⟨c, hc, herr⟩
    obtain ⟨i, hi, rfl⟩ := List.getElem_of_mem hc
    exact ⟨i, List.mem_range.mpr hi, by rw [List.getElem?_eq_getElem hi]; exact herr⟩

theorem exists_applyConfig_iff :
    (∃ order, applyConfig prom disk order configs = some err) ↔
      ∃ c ∈ configs, prom.clientError disk c = some err := by
  rw [← exists_index_iff]
  exact MapOrder.exists_findSome?_iterate_iff

theorem applyConfig_eq_none_iff (order : MapOrder ℕ) :
    applyConfig prom disk order configs = none ↔ ∀ c ∈ configs, prom.clientError disk c = none := by
  constructor
  · intro h c hc
    by_contra hne
    obtain ⟨err, herr⟩ := Option.ne_none_iff_exists'.mp hne
    obtain ⟨i, hi, hi'⟩ := (exists_index_iff (prom.clientError disk)).mpr ⟨c, hc, herr⟩
    rw [(MapOrder.findSome?_iterate_eq_none_iff order).mp h i hi] at hi'
    cases hi'
  · intro h
    refine (MapOrder.findSome?_iterate_eq_none_iff order).mpr fun i _ => ?_
    rw [Option.bind_eq_none_iff]
    exact fun c hc => h c (List.mem_of_getElem? hc)

/-- The reply of a manager that loads its file. -/
theorem reload_reply_of_loads (hstop : m.CanStop) (hload : prom.groupsOf disk m ≠ none)
    (order : MapOrder ℕ) :
    (m.reload (prom.reload disk order m)).2 =
      .ofError ((applyAll prom disk order m.alertManagers).map .other) := by
  obtain ⟨groups, hgroups⟩ := Option.ne_none_iff_exists'.mp hload
  have hstate : m.state ≠ .stuck := by
    rcases hstop with h | ⟨h, -⟩ <;> rw [h] <;> nofun
  rw [Prometheus.reload, hgroups, PromRuleManager.reload, if_neg hstate]
  exact congrArg Prod.snd (if_pos hstop)

/-- The reply of one whose groups are not evaluated. -/
theorem reload_reply_of_waits (hstop : ¬ m.CanStop) (hload : prom.groupsOf disk m ≠ none)
    (order : MapOrder ℕ) : (m.reload (prom.reload disk order m)).2 = .blocked := by
  obtain ⟨groups, hgroups⟩ := Option.ne_none_iff_exists'.mp hload
  rw [Prometheus.reload, hgroups, PromRuleManager.reload]
  rw [if_neg hstop]
  split <;> rfl

theorem reload_reply_of_stuck (hstate : m.state = .stuck) (order : MapOrder ℕ) :
    (m.reload (prom.reload disk order m)).2 = .blocked := by
  unfold PromRuleManager.reload
  rw [if_pos hstate]

theorem reload_reply_of_rejected (hstate : m.state ≠ .stuck) (hload : prom.groupsOf disk m = none)
    (order : MapOrder ℕ) :
    (m.reload (prom.reload disk order m)).2 = .error (.other updateError) := by
  rw [Prometheus.reload, hload, PromRuleManager.reload, if_neg hstate]

/-- The errors with which the configurations may be applied. -/
theorem exists_applyAll_iff :
    (∃ order, applyAll prom disk order m.alertManagers = some err) ↔
      ∃ configs, m.alertManagers = some configs ∧
        ((∃ c ∈ configs, prom.clientError disk c = some err) ∨
          (∀ c ∈ configs, prom.clientError disk c = none) ∧
            applyAlertmanagerConfig prom configs = some err) := by
  cases m.alertManagers with
  | none => simp [applyAll]
  | some configs =>
    simp only [applyAll, Option.some.injEq, exists_eq_left']
    constructor
    · rintro ⟨order, h⟩
      cases happly : applyConfig prom disk order configs with
      | some err' =>
        rw [happly, Option.some_or] at h
        cases h
        exact .inl (exists_applyConfig_iff.mp ⟨order, happly⟩)
      | none =>
        rw [happly, Option.none_or] at h
        exact .inr ⟨(applyConfig_eq_none_iff order).mp happly, h⟩
    · rintro (hclient | ⟨hclients, herr⟩)
      · obtain ⟨order, horder⟩ := exists_applyConfig_iff.mpr hclient
        exact ⟨order, by rw [horder, Option.some_or]⟩
      · have hnone := (applyConfig_eq_none_iff ⟨id, .refl⟩).mpr hclients
        exact ⟨⟨id, .refl⟩, by rw [hnone, Option.none_or, herr]⟩

/-- Whether the configurations can be applied does not depend on the order. -/
theorem applyAll_eq_none_iff (order order' : MapOrder ℕ) :
    applyAll prom disk order m.alertManagers = none ↔
      applyAll prom disk order' m.alertManagers = none := by
  cases m.alertManagers with
  | none => exact Iff.rfl
  | some configs =>
    simp only [applyAll, Option.or_eq_none_iff, applyConfig_eq_none_iff]

/-- The faults of a manager are the replies with which it does not reload. -/
theorem fault_iff : Fault prom disk m reply ↔
    reply ≠ .ok ∧ ∃ order, (m.reload (prom.reload disk order m)).2 = reply := by
  constructor
  · rintro (hstate | ⟨hstate, hload⟩ | ⟨hstop, hload⟩ | ⟨hstop, hload, hconfigs, hc, herr⟩ |
      ⟨hstop, hload, hconfigs, hclients, herr⟩)
    · exact ⟨nofun, ⟨id, .refl⟩, reload_reply_of_stuck hstate _⟩
    · exact ⟨nofun, ⟨id, .refl⟩, reload_reply_of_rejected hstate hload _⟩
    · exact ⟨nofun, ⟨id, .refl⟩, reload_reply_of_waits hstop hload _⟩
    · obtain ⟨order, horder⟩ := exists_applyAll_iff.mpr ⟨_, hconfigs, .inl ⟨_, hc, herr⟩⟩
      exact ⟨nofun, order, by rw [reload_reply_of_loads hstop hload, horder]; rfl⟩
    · obtain ⟨order, horder⟩ := exists_applyAll_iff.mpr ⟨_, hconfigs, .inr ⟨hclients, herr⟩⟩
      exact ⟨nofun, order, by rw [reload_reply_of_loads hstop hload, horder]; rfl⟩
  · rintro ⟨hne, order, h⟩
    by_cases hstate : m.state = .stuck
    · rw [reload_reply_of_stuck hstate] at h
      exact h ▸ .stuck hstate
    by_cases hload : prom.groupsOf disk m = none
    · rw [reload_reply_of_rejected hstate hload] at h
      exact h ▸ .rules hstate hload
    by_cases hstop : m.CanStop
    · rw [reload_reply_of_loads hstop hload] at h
      cases happly : applyAll prom disk order m.alertManagers with
      | none =>
        rw [happly] at h
        exact absurd h.symm hne
      | some err =>
        rw [happly] at h
        obtain ⟨configs, hconfigs, ⟨c, hc, herr⟩ | ⟨hclients, herr⟩⟩ :=
          exists_applyAll_iff.mp ⟨order, happly⟩
        · exact h ▸ .client hstop hload hconfigs hc herr
        · exact h ▸ .marshal hstop hload hconfigs hclients herr
    · rw [reload_reply_of_waits hstop hload] at h
      exact h ▸ .waits hstop hload

/-- A manager with a fault does not reload, in whatever order its alertmanagers are visited. -/
theorem Fault.reload_ne_ok (h : Fault prom disk m reply) (order : MapOrder ℕ) :
    (m.reload (prom.reload disk order m)).2 ≠ .ok := by
  obtain ⟨hne, order', horder'⟩ := fault_iff.mp h
  by_cases hstate : m.state = .stuck
  · rw [reload_reply_of_stuck hstate]
    nofun
  by_cases hload : prom.groupsOf disk m = none
  · rw [reload_reply_of_rejected hstate hload]
    nofun
  by_cases hstop : m.CanStop
  · rw [reload_reply_of_loads hstop hload] at horder' ⊢
    cases happly : applyAll prom disk order m.alertManagers with
    | none =>
      rw [(applyAll_eq_none_iff order order').mp happly] at horder'
      exact absurd horder'.symm hne
    | some err => nofun
  · rw [reload_reply_of_waits hstop hload]
    nofun

/-! ## The loop -/

variable {managers managers₁ managers₂ : GoMap Bytes PromRuleManager} {disk₁ disk₂ : Disk}
  {order : ReloadOrder} {files : CallOutcomes}

/-- The keys that a range visits are distinct. -/
theorem nodup_iterate (order : MapOrder Bytes) (managers : GoMap Bytes PromRuleManager) :
    (order.iterate managers.keys).Nodup :=
  (order.perm managers.keys).nodup_iff.mpr (AList.keys_nodup managers)

theorem reload_reply (files : CallOutcomes) (order : ReloadOrder) :
    (PromRuleManagers.reload (files.reloadedBy prom order) disk managers).2 =
      ((order.managers.iterate managers.keys).findSome? (PromRuleManagers.failure
        (fun id m => prom.reload disk (order.alertmanagers id) m) managers)).getD .ok :=
  PromRuleManagers.reloadFrom_reply (nodup_iterate order.managers managers) managers

theorem mem_faults_of_reload (hne : reply ≠ .ok)
    (h : (PromRuleManagers.reload (files.reloadedBy prom order) disk managers).2 = reply) :
    reply ∈ faults prom disk managers := by
  rw [reload_reply] at h
  cases hfirst : (order.managers.iterate managers.keys).findSome? (PromRuleManagers.failure
      (fun id m => prom.reload disk (order.alertmanagers id) m) managers) with
  | none =>
    rw [hfirst] at h
    exact absurd h.symm hne
  | some reply' =>
    rw [hfirst, Option.getD_some] at h
    subst h
    obtain ⟨id, -, hid⟩ := List.exists_of_findSome?_eq_some hfirst
    obtain ⟨-, m, hm, hreply⟩ := PromRuleManagers.failure_eq_some_iff.mp hid
    exact ⟨id, m, hm, fault_iff.mpr ⟨hne, _, hreply⟩⟩

theorem reload_eq_ok_iff :
    (PromRuleManagers.reload (files.reloadedBy prom order) disk managers).2 = .ok ↔
      faults prom disk managers = ∅ := by
  constructor
  · intro h
    rw [Set.eq_empty_iff_forall_notMem]
    rintro reply ⟨id, m, hm, hfault⟩
    have hkeys := ((order.managers.perm managers.keys).mem_iff).mpr (GoMap.mem_keys_of_lookup hm)
    exact hfault.reload_ne_ok _
      (PromRuleManagers.reloadFrom_reloaded (nodup_iterate order.managers managers) h hkeys hm).1
  · intro h
    by_contra hne
    exact absurd (mem_faults_of_reload hne rfl) (by rw [h]; exact Set.notMem_empty _)

/-- Every fault is the reply of `Reload` in some order. -/
theorem exists_reload (h : reply ∈ faults prom disk managers) (files : CallOutcomes) :
    ∃ order, (PromRuleManagers.reload (files.reloadedBy prom order) disk managers).2 = reply := by
  obtain ⟨id, m, hm, hfault⟩ := h
  obtain ⟨hne, order, horder⟩ := fault_iff.mp hfault
  refine ⟨⟨.first id, fun _ => order⟩, ?_⟩
  rw [reload_reply, MapOrder.findSome?_first (GoMap.mem_keys_of_lookup hm)
    (PromRuleManagers.failure_eq_some_iff.mpr ⟨hne, m, hm, horder⟩), Option.getD_some]

/-- With the same faults, and at most one, `Reload` ends in the same way in all orders. -/
theorem reload_eq_of_faults_eq
    (hfaults : faults prom disk₁ managers₁ = faults prom disk₂ managers₂)
    (hsubsingleton : (faults prom disk₁ managers₁).Subsingleton) (files : CallOutcomes)
    (order₁ order₂ : ReloadOrder) :
    (PromRuleManagers.reload (files.reloadedBy prom order₁) disk₁ managers₁).2 =
      (PromRuleManagers.reload (files.reloadedBy prom order₂) disk₂ managers₂).2 := by
  by_cases h₁ : (PromRuleManagers.reload (files.reloadedBy prom order₁) disk₁ managers₁).2 = .ok
  · rw [h₁]
    rw [reload_eq_ok_iff, hfaults] at h₁
    exact (reload_eq_ok_iff.mpr h₁).symm
  · have hmem₁ := mem_faults_of_reload h₁ rfl
    by_cases h₂ : (PromRuleManagers.reload (files.reloadedBy prom order₂) disk₂ managers₂).2 = .ok
    · rw [hfaults, reload_eq_ok_iff.mp h₂] at hmem₁
      cases hmem₁
    · have hmem₂ := mem_faults_of_reload h₂ rfl
      rw [← hfaults] at hmem₂
      exact hsubsingleton hmem₁ hmem₂

/-- If `Reload` ends in the same way in all orders, the faults are the same, and at most one. -/
theorem faults_eq_of_reload_eq (files : CallOutcomes)
    (hsame : ∀ order₁ order₂,
      (PromRuleManagers.reload (files.reloadedBy prom order₁) disk₁ managers₁).2 =
        (PromRuleManagers.reload (files.reloadedBy prom order₂) disk₂ managers₂).2) :
    faults prom disk₁ managers₁ = faults prom disk₂ managers₂ ∧
      (faults prom disk₁ managers₁).Subsingleton := by
  have order : ReloadOrder := ⟨⟨id, .refl⟩, fun _ => ⟨id, .refl⟩⟩
  have hne : ∀ {reply}, reply ∈ faults prom disk₁ managers₁ ∨
      reply ∈ faults prom disk₂ managers₂ → reply ≠ .ok := by
    rintro reply (⟨_, _, -, h⟩ | ⟨_, _, -, h⟩)
    · exact (fault_iff.mp h).1
    · exact (fault_iff.mp h).1
  refine ⟨Set.ext fun reply => ⟨fun h => ?_, fun h => ?_⟩, fun reply h reply' h' => ?_⟩
  · obtain ⟨order₁, horder₁⟩ := exists_reload h files
    exact mem_faults_of_reload (hne (.inl h)) ((hsame order₁ order).symm.trans horder₁)
  · obtain ⟨order₂, horder₂⟩ := exists_reload h files
    exact mem_faults_of_reload (hne (.inr h)) ((hsame order order₂).trans horder₂)
  · -- both are the reply in the second state, in any order
    obtain ⟨order₁, horder₁⟩ := exists_reload h files
    obtain ⟨order₁', horder₁'⟩ := exists_reload h' files
    rw [← horder₁, ← horder₁', hsame order₁ order, hsame order₁' order]

end Faults

/-! ## Two states -/

section TwoStates

variable {prom : Prometheus} {lib : RuleLibrary} {marshal : PromRuleGroup → Bytes}
  {rulesStoragePath : Bytes} {files : CallOutcomes} {managerId : Bytes} {ruleGroup : RuleGroup}
  {node node₁ node₂ : LocalNode} {promRuleGroup : PromRuleGroup}

/-- A call that gets to `Reload`. -/
theorem upsertRuleGroup_of_getsToReload
    (h : GetsToReload lib rulesStoragePath files managerId ruleGroup node.disk promRuleGroup)
    (order : ReloadOrder) :
    LocalRuleManager.upsertRuleGroup rulesStoragePath (files.reloadedBy prom order) managerId lib
        marshal ruleGroup node =
      (⟨written marshal rulesStoragePath managerId promRuleGroup node.disk,
        (PromRuleManagers.reload (files.reloadedBy prom order)
          (written marshal rulesStoragePath managerId promRuleGroup node.disk)
          node.promRuleManagers).1⟩,
      (PromRuleManagers.reload (files.reloadedBy prom order)
        (written marshal rulesStoragePath managerId promRuleGroup node.disk)
        node.promRuleManagers).2) := by
  have hstat : (files.reloadedBy prom order).statError = none := h.stat
  have hwrite : (files.reloadedBy prom order).writeError
      (rulesFilePath rulesStoragePath managerId) = none := h.write
  unfold LocalRuleManager.upsertRuleGroup RuleManagerFiles.upsertRuleGroup
  simp only [h.converted, hstat, h.directory, if_true, if_neg h.file, hwrite]
  rfl

/-- Two states agree on a manager: on its directory with the file of its rules, and on the
    running manager, which reads its rules from there. -/
structure Agree (rulesStoragePath managerId : Bytes) (node₁ node₂ : LocalNode) : Prop where
  directory : ∀ path, path = ruleManagerDirectoryPath rulesStoragePath managerId ∨
    Below (ruleManagerDirectoryPath rulesStoragePath managerId) path ∨
    path = rulesFilePath rulesStoragePath managerId →
    node₁.disk.lookup path = node₂.disk.lookup path
  running : ∃ m, node₁.promRuleManagers.lookup managerId = some m ∧
    m.promRuleFile = rulesFilePath rulesStoragePath managerId
  manager : node₁.promRuleManagers.lookup managerId = node₂.promRuleManagers.lookup managerId

theorem Agree.mem_iff (h : Agree rulesStoragePath managerId node₁ node₂) :
    ruleManagerDirectoryPath rulesStoragePath managerId ∈ node₁.disk ↔
      ruleManagerDirectoryPath rulesStoragePath managerId ∈ node₂.disk := by
  rw [← AList.lookup_isSome, ← AList.lookup_isSome, h.directory _ (.inl rfl)]

theorem Agree.file (h : Agree rulesStoragePath managerId node₁ node₂) :
    node₁.disk.lookup (rulesFilePath rulesStoragePath managerId) =
      node₂.disk.lookup (rulesFilePath rulesStoragePath managerId) :=
  h.directory _ (.inr (.inr rfl))

theorem GetsToReload.of_agree
    (h : GetsToReload lib rulesStoragePath files managerId ruleGroup node₁.disk promRuleGroup)
    (hagree : Agree rulesStoragePath managerId node₁ node₂) :
    GetsToReload lib rulesStoragePath files managerId ruleGroup node₂.disk promRuleGroup :=
  ⟨h.converted, h.stat, hagree.mem_iff.mp h.directory, hagree.file ▸ h.file, h.write⟩

/-- A call that does not get to `Reload` fails for a reason that has to do with the group or
    with the manager's own directory. -/
theorem upsertRuleGroup_of_not_getsToReload
    (hagree : Agree rulesStoragePath managerId node₁ node₂)
    (h : ∀ promRuleGroup,
      ¬ GetsToReload lib rulesStoragePath files managerId ruleGroup node₁.disk promRuleGroup)
    (order₁ order₂ : ReloadOrder) :
    ∃ e, (LocalRuleManager.upsertRuleGroup rulesStoragePath (files.reloadedBy prom order₁)
        managerId lib marshal ruleGroup node₁).2 = .error e ∧
      (LocalRuleManager.upsertRuleGroup rulesStoragePath (files.reloadedBy prom order₂)
        managerId lib marshal ruleGroup node₂).2 = .error e := by
  have hstat : ∀ order, (files.reloadedBy prom order).statError = files.statError := fun _ => rfl
  have hwrite : ∀ order path,
      (files.reloadedBy prom order).writeError path = files.writeError path := fun _ _ => rfl
  unfold LocalRuleManager.upsertRuleGroup RuleManagerFiles.upsertRuleGroup
  cases hconverted : ruleGroup.convertToPromRuleGroup lib with
  | error err => exact ⟨_, rfl, rfl⟩
  | ok promRuleGroup =>
    simp only [hstat, hwrite]
    cases hstat' : files.statError with
    | some err => exact ⟨_, rfl, rfl⟩
    | none =>
      by_cases hdir : ruleManagerDirectoryPath rulesStoragePath managerId ∈ node₁.disk
      · have hdir₂ := hagree.mem_iff.mp hdir
        by_cases hfile : node₁.disk.lookup (rulesFilePath rulesStoragePath managerId)
            = some .directory
        · have hfile₂ := hagree.file.symm.trans hfile
          simp [hdir, hdir₂, hfile, hfile₂]
        · have hfile₂ := hagree.file ▸ hfile
          cases hwrite' : files.writeError (rulesFilePath rulesStoragePath managerId) with
          | some err => simp [hdir, hdir₂, hfile, hfile₂]
          | none =>
            exact absurd ⟨hconverted, hstat', hdir, hfile, hwrite'⟩ (h promRuleGroup)
      · simp [hdir, mt hagree.mem_iff.mpr hdir]

/-- Two calls return the same, and if they succeed the manager has loaded the group in both. -/
structure Undisturbed (prom : Prometheus) (lib : RuleLibrary) (marshal : PromRuleGroup → Bytes)
    (rulesStoragePath managerId : Bytes) (ruleGroup : RuleGroup)
    (result₁ result₂ : LocalNode × Reply) : Prop where
  returns : result₁.2 ≠ .blocked
  same : result₁.2 = result₂.2
  loaded : result₁.2 = .ok → ∃ promRuleGroup groups,
    ruleGroup.convertToPromRuleGroup lib = .ok promRuleGroup ∧
    prom.loadGroups (rulesFilePath rulesStoragePath managerId)
      (some (.text (marshal promRuleGroup))) = some groups ∧
    (result₁.1.promRuleManagers.lookup managerId).map PromRuleManager.groups = some groups ∧
    (result₂.1.promRuleManagers.lookup managerId).map PromRuleManager.groups = some groups

/-- A manager has loaded what was written to its file, if `Reload` succeeds. -/
theorem reload_loaded {disk : Disk} {managers : GoMap Bytes PromRuleManager} {order : ReloadOrder}
    {m : PromRuleManager} (hm : managers.lookup managerId = some m)
    (hfile : m.promRuleFile = rulesFilePath rulesStoragePath managerId)
    (hok : (PromRuleManagers.reload (files.reloadedBy prom order)
      (written marshal rulesStoragePath managerId promRuleGroup disk) managers).2 = .ok) :
    ∃ groups, prom.loadGroups (rulesFilePath rulesStoragePath managerId)
        (some (.text (marshal promRuleGroup))) = some groups ∧
      ((PromRuleManagers.reload (files.reloadedBy prom order)
        (written marshal rulesStoragePath managerId promRuleGroup disk) managers).1.lookup
          managerId).map PromRuleManager.groups = some groups := by
  have hid := (order.managers.perm managers.keys).mem_iff.mpr (GoMap.mem_keys_of_lookup hm)
  obtain ⟨hreply, hlookup⟩ := PromRuleManagers.reloadFrom_reloaded
    (nodup_iterate order.managers managers) hok hid hm
  obtain ⟨groups, houtcome, hreloaded⟩ := m.reload_eq_ok _ hreply
  refine ⟨groups, ?_, (congrArg _ hlookup).trans (by rw [hreloaded]; rfl)⟩
  have hgroups : prom.groupsOf (written marshal rulesStoragePath managerId promRuleGroup disk) m =
      some groups := by
    unfold CallOutcomes.reloadedBy Prometheus.reload at houtcome
    dsimp only at houtcome
    split at houtcome
    · cases houtcome
    · rename_i hgroups
      rw [(ReloadOutcome.loaded.inj houtcome).1] at hgroups
      exact hgroups
  rw [Prometheus.groupsOf, hfile, written, AList.lookup_insert] at hgroups
  exact hgroups

/-- **When managers do not disturb each other.** In two states that agree on a manager,
    `UpsertRuleGroup` on it with the same group returns, and returns the same, in whatever
    orders the managers and their alertmanagers are visited, and has loaded the group if it
    succeeds, exactly if it does not get to `Reload`, or the faults of the managers are the
    same in both states and at most one, and none of them blocks. -/
theorem undisturbed_iff (prom : Prometheus) (lib : RuleLibrary)
    (marshal : PromRuleGroup → Bytes) (rulesStoragePath : Bytes) (files : CallOutcomes)
    (managerId : Bytes) (ruleGroup : RuleGroup) (node₁ node₂ : LocalNode)
    (hagree : Agree rulesStoragePath managerId node₁ node₂) :
    (∀ order₁ order₂, Undisturbed prom lib marshal rulesStoragePath managerId ruleGroup
      (LocalRuleManager.upsertRuleGroup rulesStoragePath (files.reloadedBy prom order₁) managerId
        lib marshal ruleGroup node₁)
      (LocalRuleManager.upsertRuleGroup rulesStoragePath (files.reloadedBy prom order₂) managerId
        lib marshal ruleGroup node₂)) ↔
    ∀ promRuleGroup,
      GetsToReload lib rulesStoragePath files managerId ruleGroup node₁.disk promRuleGroup →
      faults prom (written marshal rulesStoragePath managerId promRuleGroup node₁.disk)
          node₁.promRuleManagers =
        faults prom (written marshal rulesStoragePath managerId promRuleGroup node₂.disk)
          node₂.promRuleManagers ∧
      (faults prom (written marshal rulesStoragePath managerId promRuleGroup node₁.disk)
        node₁.promRuleManagers).Subsingleton ∧
      .blocked ∉ faults prom (written marshal rulesStoragePath managerId promRuleGroup node₁.disk)
        node₁.promRuleManagers := by
  constructor
  · intro h promRuleGroup hgets
    have hcalls : ∀ order₁ order₂, _ := fun order₁ order₂ => by
      have hresults := h order₁ order₂
      rw [upsertRuleGroup_of_getsToReload hgets,
        upsertRuleGroup_of_getsToReload (hgets.of_agree hagree)] at hresults
      exact hresults
    obtain ⟨hfaults, hsubsingleton⟩ :=
      faults_eq_of_reload_eq files fun order₁ order₂ => (hcalls order₁ order₂).same
    refine ⟨hfaults, hsubsingleton, fun hblocked => ?_⟩
    obtain ⟨order, horder⟩ := exists_reload hblocked files
    exact (hcalls order order).returns horder
  · intro h order₁ order₂
    by_cases hgets : ∃ promRuleGroup,
        GetsToReload lib rulesStoragePath files managerId ruleGroup node₁.disk promRuleGroup
    · obtain ⟨promRuleGroup, hgets⟩ := hgets
      obtain ⟨hfaults, hsubsingleton, hblocked⟩ := h promRuleGroup hgets
      have hsame := reload_eq_of_faults_eq hfaults hsubsingleton files order₁ order₂
      obtain ⟨m, hm, hfile⟩ := hagree.running
      rw [upsertRuleGroup_of_getsToReload hgets,
        upsertRuleGroup_of_getsToReload (hgets.of_agree hagree)]
      refine ⟨fun hreply => hblocked (mem_faults_of_reload nofun hreply), hsame, fun hok => ?_⟩
      obtain ⟨groups, hgroups, hloaded₁⟩ := reload_loaded hm hfile hok
      obtain ⟨groups₂, hgroups₂, hloaded₂⟩ :=
        reload_loaded (hagree.manager.symm.trans hm) hfile (hsame.symm.trans hok)
      rw [hgroups] at hgroups₂
      cases hgroups₂
      exact ⟨promRuleGroup, groups, hgets.converted, hgroups, hloaded₁, hloaded₂⟩
    · obtain ⟨e, he₁, he₂⟩ := upsertRuleGroup_of_not_getsToReload hagree
        (not_exists.mp hgets) order₁ order₂
      refine ⟨fun hreply => ?_, he₁.trans he₂.symm, fun hok => ?_⟩
      · rw [he₁] at hreply
        cases hreply
      · rw [he₁] at hok
        cases hok

end TwoStates

/-! ## Two managers -/

/-- A Prometheus that accepts rule files without the letter `x`, and takes the text for the
    only group. -/
def toyPrometheus : Prometheus where
  loadGroups _ entry :=
    match entry with
    | some (.text text) => if 120 ∈ text then none else some [text]
    | _ => none
  clientError _ _ := none
  marshalError _ := none

/-- A node with a running manager for each of these names, and the texts of their rule files. -/
def nodeOf (rules : List (Bytes × Bytes)) : LocalNode where
  disk := GoMap.ofPairs (rules.flatMap fun r =>
    [(ruleManagerDirectoryPath (lit "/var/rules") r.1, .directory),
      (rulesFilePath (lit "/var/rules") r.1, .text r.2)])
  promRuleManagers := GoMap.ofPairs (rules.map fun r =>
    (r.1, ⟨rulesFilePath (lit "/var/rules") r.1, none, .running, [lit "old"]⟩))

/-- The manager `a` alone, and with a manager `b`. -/
def aloneA : LocalNode := nodeOf [(lit "a", lit "old")]

def withB (text : Bytes) : LocalNode := nodeOf [(lit "a", lit "old"), (lit "b", text)]

/-- A group of one rule. -/
def newGroup : RuleGroup := ⟨lit "new", 0, [⟨lit "r", [], lit "1", [], ∅, ∅⟩]⟩

def upsertOn (managerId : Bytes) (order : ReloadOrder) (node : LocalNode) : LocalNode × Reply :=
  LocalRuleManager.upsertRuleGroup (lit "/var/rules")
    (CallOutcomes.allSucceed.reloadedBy toyPrometheus order) managerId plainLibrary
    PromRuleGroup.name newGroup node

def visitFirst (managerId : Bytes) : ReloadOrder := ⟨.first managerId, fun _ => ⟨id, .refl⟩⟩

/-- The groups that a manager has loaded. -/
def groupsIn (node : LocalNode) (managerId : Bytes) : Option (List Bytes) :=
  (node.promRuleManagers.lookup managerId).map PromRuleManager.groups

theorem agree_withB (text : Bytes) : Agree (lit "/var/rules") (lit "a") aloneA (withB text) where
  directory path hpath := by
    have hdisk : (withB text).disk =
        (aloneA.disk.insert (ruleManagerDirectoryPath (lit "/var/rules") (lit "b"))
          .directory).insert (rulesFilePath (lit "/var/rules") (lit "b")) (.text text) := rfl
    have hapart : ∀ other, ¬ (other = ruleManagerDirectoryPath (lit "/var/rules") (lit "a") ∨
        Below (ruleManagerDirectoryPath (lit "/var/rules") (lit "a")) other ∨
        other = rulesFilePath (lit "/var/rules") (lit "a")) → path ≠ other := by
      rintro other hother rfl
      exact hother hpath
    rw [hdisk, AList.lookup_insert_ne (hapart _ (by decide)),
      AList.lookup_insert_ne (hapart _ (by decide))]
  running := ⟨⟨rulesFilePath (lit "/var/rules") (lit "a"), none, .running, [lit "old"]⟩, rfl, rfl⟩
  manager := rfl

theorem undisturbed_iff_healthyB :
    Agree (lit "/var/rules") (lit "a") aloneA (withB (lit "fine")) ∧
    ∀ order₁ order₂, Undisturbed toyPrometheus plainLibrary PromRuleGroup.name (lit "/var/rules")
      (lit "a") newGroup (upsertOn (lit "a") order₁ aloneA)
      (upsertOn (lit "a") order₂ (withB (lit "fine"))) := by
  refine ⟨agree_withB _, (undisturbed_iff toyPrometheus plainLibrary PromRuleGroup.name
    (lit "/var/rules") .allSucceed (lit "a") newGroup aloneA (withB (lit "fine"))
    (agree_withB _)).2 ?_⟩
  intro promRuleGroup hgets
  obtain rfl := Except.ok.inj hgets.converted
  have hreloads : ∀ node ∈ [aloneA, withB (lit "fine")],
      (PromRuleManagers.reload (CallOutcomes.allSucceed.reloadedBy toyPrometheus
        (visitFirst (lit "a"))) (written PromRuleGroup.name (lit "/var/rules") (lit "a")
        ⟨lit "new", 0, [⟨lit "r", [], lit "1", 0, ∅, ∅⟩]⟩ node.disk) node.promRuleManagers).2
          = .ok := by
    decide
  have halone := reload_eq_ok_iff.mp (hreloads aloneA (by simp))
  have hboth := reload_eq_ok_iff.mp (hreloads (withB (lit "fine")) (by simp))
  exact ⟨halone.trans hboth.symm, halone ▸ Set.subsingleton_empty, halone ▸ Set.notMem_empty _⟩

/-- **A rule file that is rejected** makes the call about another manager fail. With `a` alone
    the call loads the group. With a manager `b` whose file is rejected the call returns the
    error of `b`, and if `b` is visited first `a` has not loaded the group. -/
theorem rejected_file_disturbs :
    newGroup.validate plainLibrary = none ∧
    Agree (lit "/var/rules") (lit "a") aloneA (withB (lit "x")) ∧
    (upsertOn (lit "a") (visitFirst (lit "a")) aloneA).2 = .ok ∧
    groupsIn (upsertOn (lit "a") (visitFirst (lit "a")) aloneA).1 (lit "a") = some [lit "new"] ∧
    (upsertOn (lit "a") (visitFirst (lit "b")) (withB (lit "x"))).2
      = .error (.other updateError) ∧
    groupsIn (upsertOn (lit "a") (visitFirst (lit "b")) (withB (lit "x"))).1 (lit "a")
      = some [lit "old"] ∧
    (upsertOn (lit "a") (visitFirst (lit "a")) (withB (lit "x"))).2
      = .error (.other updateError) ∧
    groupsIn (upsertOn (lit "a") (visitFirst (lit "a")) (withB (lit "x"))).1 (lit "a")
      = some [lit "new"] :=
  ⟨by decide, agree_withB _, by decide, by decide, by decide, by decide, by decide, by decide⟩

/-- The node with `a` and a `b` whose file is rejected, after a restart. -/
def restarted : LocalNode where
  disk := (withB (lit "x")).disk
  promRuleManagers := loadRules (lit "/var/rules")
    (fun _ m => toyPrometheus.reload (withB (lit "x")).disk ⟨id, .refl⟩ m) [lit "a", lit "b"]
    (withB (lit "x")).disk

/-- **A manager that was not started** keeps the call about another one from returning. After
    the restart `b` is there and was not started. The next call corrects its file and succeeds,
    and `b` has a group that is not evaluated. From then on no call that reloads returns,
    although every rule file is accepted. -/
theorem unstarted_manager_blocks :
    (restarted.promRuleManagers.lookup (lit "b")).map PromRuleManager.state = some .new ∧
    (upsertOn (lit "b") (visitFirst (lit "a")) restarted).2 = .ok ∧
    (upsertOn (lit "a") (visitFirst (lit "a"))
      (upsertOn (lit "b") (visitFirst (lit "a")) restarted).1).2 = .blocked := by
  decide

end MetricStore.Rules
