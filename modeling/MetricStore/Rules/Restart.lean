import MetricStore.Rules.Files

/-!
# Configurations after a restart and on other nodes

A rule manager keeps the configurations it was created with in memory, and `Create`
writes them to its directory, from where `loadRules` reads them at the next start. A
remote replica gets them as JSON (`ManagerConfig.ToJSON`, `ManagerConfigFromJSON`). Both
ways go through YAML, which hides the secrets.

Nil and empty configurations are the same (`SameConfigs`).

Results:
* `configuration_survives_iff`: after a successful `CreateManager`, a restart and a
  transfer give back the configurations exactly when each of their secrets is empty or
  reads `<secret>`.
* `bearer_token_lost`: with a bearer token they do not.
-/

namespace MetricStore.Rules

open MetricStore.Common

/-- Configurations up to nil and empty. -/
def SameConfigs (a b : Option AlertmanagerConfigs) : Prop := a.getD [] = b.getD []

instance (a b : Option AlertmanagerConfigs) : Decidable (SameConfigs a b) :=
  inferInstanceAs (Decidable (_ = _))

/-- The manager is running, and `loadRules` makes it again with the configurations that it
    runs with, however `Reload` ends at the start. -/
def SurvivesRestart (rulesStoragePath : Bytes) (reload : Bytes → PromRuleManager → ReloadOutcome)
    (directories : List Bytes) (managerId : Bytes) (node : LocalNode) : Prop :=
  ∃ running ∈ node.promRuleManagers.lookup managerId,
    ∃ loaded ∈ (loadRules rulesStoragePath reload directories node.disk).lookup managerId,
      SameConfigs loaded.alertManagers running.alertManagers

instance (rulesStoragePath : Bytes) (reload : Bytes → PromRuleManager → ReloadOutcome)
    (directories : List Bytes) (managerId : Bytes) (node : LocalNode) :
    Decidable (SurvivesRestart rulesStoragePath reload directories managerId node) :=
  inferInstanceAs (Decidable (∃ running ∈ node.promRuleManagers.lookup managerId, _))

/-- The body of a request decodes to what it was made from. -/
def SurvivesTransfer (m : ManagerConfig) : Prop :=
  (managerConfigFromJSON m.toJSON).id = m.id ∧
    SameConfigs (managerConfigFromJSON m.toJSON).alertmanagers m.alertmanagers

instance (m : ManagerConfig) : Decidable (SurvivesTransfer m) :=
  inferInstanceAs (Decidable (_ ∧ _))

/-- Every secret of the configurations is legible. -/
def SecretsLegible (alertManagers : Option AlertmanagerConfigs) : Prop :=
  ∀ c ∈ alertManagers.getD [], ∀ s ∈ c.secrets, Legible s

instance (alertManagers : Option AlertmanagerConfigs) : Decidable (SecretsLegible alertManagers) :=
  inferInstanceAs (Decidable (∀ c ∈ alertManagers.getD [], _))

/-! ## Through YAML -/

theorem yamlUnmarshal_yamlMarshal (alertManagers : Option AlertmanagerConfigs) :
    yamlUnmarshal (yamlMarshal alertManagers)
      = (alertManagers.getD []).map AlertmanagerConfig.written := by
  cases alertManagers <;> rfl

theorem yaml_eq_self_iff (alertManagers : Option AlertmanagerConfigs) :
    SameConfigs (some (yamlUnmarshal (yamlMarshal alertManagers))) alertManagers ↔
      SecretsLegible alertManagers := by
  unfold SameConfigs SecretsLegible
  rw [Option.getD_some, yamlUnmarshal_yamlMarshal, map_eq_self_iff]
  simp only [written_eq_self_iff]

theorem survivesTransfer_iff (m : ManagerConfig) :
    SurvivesTransfer m ↔ SecretsLegible m.alertmanagers := by
  rw [← yaml_eq_self_iff]
  exact and_iff_right rfl

/-- The secrets decide whether they are legible. -/
theorem SecretsLegible.congr {a b : Option AlertmanagerConfigs}
    (h : (a.getD []).map AlertmanagerConfig.secrets
      = (b.getD []).map AlertmanagerConfig.secrets) :
    SecretsLegible a ↔ SecretsLegible b := by
  have hmap : ∀ l : AlertmanagerConfigs, (∀ c ∈ l, ∀ s ∈ c.secrets, Legible s) ↔
      ∀ ss ∈ l.map AlertmanagerConfig.secrets, ∀ s ∈ ss, Legible s := by
    intro l
    rw [List.forall_mem_map]
  unfold SecretsLegible
  rw [hmap, hmap, h]

/-! ## Through the disk -/

/-- `loadRules` starts the manager of a directory with what `Load` gives. -/
theorem lookup_loadRules {rulesStoragePath managerId : Bytes} {disk : Disk}
    {rulesFile : Bytes} {alertManagers : Option AlertmanagerConfigs}
    (hload : load rulesStoragePath managerId disk = .ok (rulesFile, alertManagers))
    (reload : Bytes → PromRuleManager → ReloadOutcome) {directories : List Bytes}
    (hdir : managerId ∈ directories) :
    ∃ loaded ∈ (loadRules rulesStoragePath reload directories disk).lookup managerId,
      loaded.alertManagers = alertManagers := by
  -- from the last directory on: a later one with another name does not matter
  induction directories using List.reverseRecOn with
  | nil => cases hdir
  | append_singleton directories d ih =>
    unfold loadRules at ih ⊢
    rw [List.foldl_append, List.foldl_cons, List.foldl_nil]
    by_cases hd : managerId = d
    · subst hd
      rw [hload]
      exact ⟨_, AList.lookup_insert _, PromRuleManager.start_alertManagers _ _⟩
    · have hmem : managerId ∈ directories := by
        rcases List.mem_append.1 hdir with hmem | hmem
        · exact hmem
        · exact absurd (List.mem_singleton.1 hmem) hd
      split
      · exact ih hmem
      · rw [AList.lookup_insert_ne hd]
        exact ih hmem

/-- What a successful `CreateManager` leaves: the manager with the configurations after the
    call, and the same ones in its file. -/
theorem createManager_eq_ok {rulesStoragePath : Bytes} {o : Outcomes} {managerId : Bytes}
    {node : LocalNode} {alertManagers : Option AlertmanagerConfigs} {m : Manager}
    (h : (createManager rulesStoragePath o managerId node alertManagers).2.2 = .ok m) :
    ∃ rulesFile,
      (∃ running ∈ (createManager rulesStoragePath o managerId node
            alertManagers).1.promRuleManagers.lookup managerId,
        running.alertManagers
          = (createManager rulesStoragePath o managerId node alertManagers).2.1) ∧
      load rulesStoragePath managerId
          (createManager rulesStoragePath o managerId node alertManagers).1.disk
        = .ok (rulesFile, some (yamlUnmarshal (yamlMarshal
            (createManager rulesStoragePath o managerId node alertManagers).2.1))) := by
  unfold createManager at h ⊢
  cases hcreate : create rulesStoragePath o managerId node.disk alertManagers with
  | mk disk rest =>
    obtain ⟨after, result⟩ := rest
    rw [hcreate] at h
    cases result with
    | error e => cases h
    | ok rulesFile =>
      obtain ⟨hfile, hlookup⟩ := create_eq_ok rulesStoragePath o managerId hcreate
      cases hstart : o.startError with
      | some err =>
        simp only [hstart] at h
        cases h
      | none =>
        refine ⟨rulesFile,
          ⟨_, AList.lookup_insert _, PromRuleManager.start_alertManagers _ _⟩, ?_⟩
        simp only [load, hlookup, hfile]

theorem survivesRestart_iff {rulesStoragePath : Bytes} {o : Outcomes} {managerId : Bytes}
    {node : LocalNode} {alertManagers : Option AlertmanagerConfigs} {m : Manager}
    (h : (createManager rulesStoragePath o managerId node alertManagers).2.2 = .ok m)
    (reload : Bytes → PromRuleManager → ReloadOutcome) {directories : List Bytes}
    (hdir : managerId ∈ directories) :
    SurvivesRestart rulesStoragePath reload directories managerId
        (createManager rulesStoragePath o managerId node alertManagers).1 ↔
      SecretsLegible alertManagers := by
  obtain ⟨rulesFile, ⟨running, hrunning, hconfigs⟩, hload⟩ := createManager_eq_ok h
  obtain ⟨loaded, hloaded, hread⟩ := lookup_loadRules hload reload hdir
  have hsecrets := map_secrets_createManager rulesStoragePath o managerId node alertManagers
  rw [← SecretsLegible.congr hsecrets, ← yaml_eq_self_iff, ← hread, ← hconfigs]
  constructor
  · rintro ⟨running', hrunning', loaded', hloaded', hsame⟩
    rw [Option.mem_unique hrunning hrunning', Option.mem_unique hloaded hloaded']
    exact hsame
  · intro hsame
    exact ⟨running, hrunning, loaded, hloaded, hsame⟩

/-- **Which configurations survive.** After a successful `CreateManager`, a node that
    restarts has the manager with the same configurations, however its rules are reloaded,
    and a replica that is sent them decodes the same ones, exactly when every secret in them
    is empty or reads `<secret>`. -/
theorem configuration_survives_iff (rulesStoragePath : Bytes) (o : Outcomes)
    (managerId : Bytes) (node : LocalNode) (alertManagers : Option AlertmanagerConfigs)
    (m : Manager)
    (hcreate : (createManager rulesStoragePath o managerId node alertManagers).2.2 = .ok m)
    (reload : Bytes → PromRuleManager → ReloadOutcome) (directories : List Bytes)
    (hdir : managerId ∈ directories) :
    (SurvivesRestart rulesStoragePath reload directories managerId
        (createManager rulesStoragePath o managerId node alertManagers).1 ∧
      SurvivesTransfer ⟨managerId, alertManagers⟩) ↔ SecretsLegible alertManagers := by
  rw [survivesRestart_iff hcreate reload hdir, survivesTransfer_iff]
  exact and_self_iff

/-- An alertmanager with a CA file and given credentials. -/
def configWith (basicAuth : Option BasicAuth) (bearerToken : Secret) : AlertmanagerConfig where
  serviceDiscovery := ⟨lit "static_configs", []⟩
  httpClient := ⟨basicAuth, bearerToken, [], [], ⟨lit "/etc/ca.crt", [], [], [], false⟩⟩
  scheme := lit "https"
  pathPrefix := []
  timeout := 10000000000
  apiVersion := lit "v2"
  relabelConfigs := []

/-- A restart in which every rule file is accepted and has no groups. -/
def startsWithoutGroups : Bytes → PromRuleManager → ReloadOutcome := fun _ _ => .loaded [] none

/-- With a password file. -/
def passwordFile : Option AlertmanagerConfigs :=
  some [configWith (some ⟨lit "prometheus", [], lit "/etc/password"⟩) []]

/-- With a bearer token. -/
def bearerToken : Option AlertmanagerConfigs := some [configWith none (lit "t0ken")]

theorem configuration_survives_passwordFile :
    SurvivesRestart (lit "/var/rules") startsWithoutGroups [lit "m"] (lit "m")
        (createManager (lit "/var/rules") .allSucceed (lit "m") ⟨∅, ∅⟩ passwordFile).1 ∧
      SurvivesTransfer ⟨lit "m", passwordFile⟩ :=
  (configuration_survives_iff (lit "/var/rules") .allSucceed (lit "m") ⟨∅, ∅⟩ passwordFile
    ⟨lit "m", passwordFile⟩ (by decide) startsWithoutGroups [lit "m"] (by decide)).2 (by decide)

/-- **A bearer token is lost**: the manager is created, and neither a restarted node nor
    another replica has the token. -/
theorem bearer_token_lost :
    (createManager (lit "/var/rules") .allSucceed (lit "m") ⟨∅, ∅⟩ bearerToken).2.2
        = .ok ⟨lit "m", bearerToken⟩ ∧
      ¬ SurvivesRestart (lit "/var/rules") startsWithoutGroups [lit "m"] (lit "m")
        (createManager (lit "/var/rules") .allSucceed (lit "m") ⟨∅, ∅⟩ bearerToken).1 ∧
      ¬ SurvivesTransfer ⟨lit "m", bearerToken⟩ := by
  decide

end MetricStore.Rules
