import MetricStore.Common.FilePath
import MetricStore.Common.GoMap
import MetricStore.Rules.Config

/-!
# Rule managers on a node

Model of `RuleManagerFiles` (`internal/rules/rule_manager_files.go`), which keeps a
directory for each rule manager, of `LocalRuleManager.CreateManager`
(`internal/rules/local_rule_manager.go`) with `PromRuleManagers.Create`
(`internal/rules/prom_managers.go`), and of `MetricStore.loadRules`
(`internal/metricstore/metric_store.go`, lines 399–424), which starts the managers again.

The configurations are passed by pointer, and `writeCerts` replaces an inline
certificate by the name of the file it was written to: what the caller's pointer refers
to after a call is a result of the call.

The disk is a map from paths to what they hold. How each file operation ends, and
whether the rule manager starts, is given by `Outcomes`. A write that fails may leave a
part of its text; any other operation that fails has no effect.

A `PromRuleManager` runs the `Manager` of Prometheus (`rules/manager.go`), whose groups
are evaluated from its `Run` on. `Start` returns before `Run` if `Reload` fails, and the
manager is in the map already. To stop a group is to wait for its evaluation to end, so
`Update` and `Stop` of such a manager never return once it has a group (`reload`, `stop`).

* `writeCerts_eq_self_iff`: `writeCerts` leaves the configurations alone exactly when
  the first inline certificate that it visits, if any, cannot be written.
* `map_secrets_createManager`: the secrets stay as they are.
* `create_eq_ok`: what a successful `Create` has written last.
-/

namespace MetricStore.Rules

open MetricStore.Common MetricStore.Common.FilePath MetricStore.Common.Regexp

/-! ## Paths -/

/-- The three certificates of a `TLSConfig`. -/
inductive CertKind
  | ca
  | cert
  | key
  deriving DecidableEq

section Paths

variable (rulesStoragePath managerId : Bytes)

/-- `ruleManagerDirectoryPath`. -/
def ruleManagerDirectoryPath : Bytes := join [rulesStoragePath, managerId]

/-- `rulesFilePath`. -/
def rulesFilePath : Bytes :=
  join [ruleManagerDirectoryPath rulesStoragePath managerId, lit "rules.yml"]

/-- `alertManagerFilePath`. -/
def alertManagerFilePath : Bytes :=
  join [ruleManagerDirectoryPath rulesStoragePath managerId, lit "alertmanager.yml"]

/-- The keys of `AlertmanagerConfigs.ToMap`. -/
def configKey (i : ℕ) : Bytes := lit "config-" ++ decimal i

/-- The name of a file for a certificate, with its ending. -/
def certFileName (index ending : Bytes) : Bytes := lit "alertmanager-" ++ index ++ ending

/-- `caCertFilePath`. -/
def caCertFilePath (index : Bytes) : Bytes :=
  join [ruleManagerDirectoryPath rulesStoragePath managerId, certFileName index (lit "-ca.crt")]

/-- `certFilePath`. -/
def certFilePath (index : Bytes) : Bytes :=
  join [ruleManagerDirectoryPath rulesStoragePath managerId, certFileName index (lit ".crt")]

/-- `keyFilePath`. -/
def keyFilePath (index : Bytes) : Bytes :=
  join [ruleManagerDirectoryPath rulesStoragePath managerId, certFileName index (lit ".key")]

/-- The file of a certificate of the alertmanager with number `i`. -/
def filePath (i : ℕ) : CertKind → Bytes
  | .ca => caCertFilePath rulesStoragePath managerId (configKey i)
  | .cert => certFilePath rulesStoragePath managerId (configKey i)
  | .key => keyFilePath rulesStoragePath managerId (configKey i)

end Paths

/-! ## Certificates of a configuration -/

/-- A certificate of a configuration. -/
def AlertmanagerConfig.certificate (c : AlertmanagerConfig) : CertKind → Bytes
  | .ca => c.httpClient.tlsConfig.caFile
  | .cert => c.httpClient.tlsConfig.certFile
  | .key => c.httpClient.tlsConfig.keyFile

/-- The assignment to a certificate of a configuration. -/
def AlertmanagerConfig.setCertificate (c : AlertmanagerConfig) (kind : CertKind)
    (value : Bytes) : AlertmanagerConfig :=
  { c with httpClient := { c.httpClient with
      tlsConfig :=
        match kind with
        | .ca => { c.httpClient.tlsConfig with caFile := value }
        | .cert => { c.httpClient.tlsConfig with certFile := value }
        | .key => { c.httpClient.tlsConfig with keyFile := value } } }

/-- A certificate of the alertmanager with number `i`. -/
def certificateAt (configs : AlertmanagerConfigs) (i : ℕ) (kind : CertKind) : Bytes :=
  match configs[i]? with
  | some c => c.certificate kind
  | none => []

/-- The assignment to a certificate of the alertmanager with number `i`. -/
def setCertificateAt (configs : AlertmanagerConfigs) (i : ℕ) (kind : CertKind)
    (value : Bytes) : AlertmanagerConfigs :=
  configs.modify i fun c => c.setCertificate kind value

/-! ## Files -/

/-- What a path holds. -/
inductive Entry
  | directory
  | text (contents : Bytes)
  | document (contents : Document)
  deriving DecidableEq

/-- A file system: cleaned paths and what they hold. -/
abbrev Disk := GoMap Bytes Entry

/-- The errors of a rule manager: `ManagerExistsError` and `ManagerNotExistsError`
    (`internal/rules/interfaces.go`, lines 11–14), and others by their text. -/
inductive Error
  | managerExists
  | managerNotExists
  | other (text : Bytes)
  deriving DecidableEq

/-- How the operations of one call end: `Stat` and `Mkdir` of the manager's directory,
    each `WriteFile` and what it leaves in the file if it fails, and the start of the rule
    manager; and the order of the range over the alertmanagers. -/
structure Outcomes where
  statError : Option Bytes
  mkdirError : Option Bytes
  writeError : Bytes → Option Bytes
  remains : Bytes → Option Bytes
  startError : Option Bytes
  order : MapOrder ℕ

/-- Every operation succeeds, and the range is in the order of the list. -/
def Outcomes.allSucceed : Outcomes :=
  ⟨none, none, fun _ => none, fun _ => none, none, ⟨id, .refl⟩⟩

/-- The disk after a `WriteFile` that fails: the file is as it was, if it could not be
    opened, and holds what was written of its text otherwise. -/
def failedWrite (o : Outcomes) (disk : Disk) (path : Bytes) : Disk :=
  match o.remains path with
  | some text => disk.insert path (.text text)
  | none => disk

/-- `extractCertificate` (lines 161–172), with the disk after it. -/
def extractCertificate (o : Outcomes) (disk : Disk) (path cert : Bytes) :
    Disk × Bytes × Option Bytes :=
  if certificateRegexp cert then
    match o.writeError path with
    | some err => (failedWrite o disk path, cert, some err)
    | none => (disk.insert path (.text cert), path, none)
  else (disk, cert, none)

/-- The certificates in the order in which `writeCerts` visits them: the alertmanagers
    in the order of the range, and of each the CA, the certificate and the key. -/
def visits (order : MapOrder ℕ) (configs : AlertmanagerConfigs) : List (ℕ × CertKind) :=
  (order.iterate (List.range configs.length)).flatMap fun i => [(i, .ca), (i, .cert), (i, .key)]

section Create

variable (rulesStoragePath : Bytes) (o : Outcomes) (managerId : Bytes)

/-- The loop of `writeCerts` (lines 138–156), which stops at the first error. -/
def writeCertsFrom : List (ℕ × CertKind) → Disk → AlertmanagerConfigs →
    Disk × AlertmanagerConfigs × Option Bytes
  | [], disk, configs => (disk, configs, none)
  | (i, kind) :: rest, disk, configs =>
    match extractCertificate o disk (filePath rulesStoragePath managerId i kind)
      (certificateAt configs i kind) with
    | (disk, cert, some err) => (disk, setCertificateAt configs i kind cert, some err)
    | (disk, cert, none) => writeCertsFrom rest disk (setCertificateAt configs i kind cert)

/-- `writeCerts` (lines 132–159). -/
def writeCerts (disk : Disk) :
    Option AlertmanagerConfigs → Disk × Option AlertmanagerConfigs × Option Bytes
  | none => (disk, none, none)
  | some configs =>
    match writeCertsFrom rulesStoragePath o managerId (visits o.order configs) disk configs with
    | (disk, configs, err) => (disk, some configs, err)

/-- `Create` (lines 27–55), with the disk and the configurations after it. -/
def create (disk : Disk) (alertManagers : Option AlertmanagerConfigs) :
    Disk × Option AlertmanagerConfigs × Except Error Bytes :=
  let directory := ruleManagerDirectoryPath rulesStoragePath managerId
  let rulesFile := rulesFilePath rulesStoragePath managerId
  let alertManagerFile := alertManagerFilePath rulesStoragePath managerId
  match o.statError with
  | some err => (disk, alertManagers, .error (.other err))
  | none =>
    if directory ∈ disk then (disk, alertManagers, .error .managerExists)
    else
      match o.mkdirError with
      | some err => (disk, alertManagers, .error (.other err))
      | none =>
        let disk := disk.insert directory .directory
        match o.writeError rulesFile with
        | some err => (failedWrite o disk rulesFile, alertManagers, .error (.other err))
        | none =>
          let disk := disk.insert rulesFile (.text (lit "groups: []\n"))
          match writeCerts rulesStoragePath o managerId disk alertManagers with
          | (disk, alertManagers, some err) => (disk, alertManagers, .error (.other err))
          | (disk, alertManagers, none) =>
            match o.writeError alertManagerFile with
            | some err => (failedWrite o disk alertManagerFile, alertManagers, .error (.other err))
            | none =>
              (disk.insert alertManagerFile (.document (yamlMarshal alertManagers)),
                alertManagers, .ok rulesFile)

end Create

/-- `Load` (lines 69–91). A file that is not a document of configurations cannot be
    read as one. -/
def load (rulesStoragePath managerId : Bytes) (disk : Disk) :
    Except Error (Bytes × Option AlertmanagerConfigs) :=
  match disk.lookup (alertManagerFilePath rulesStoragePath managerId) with
  | none => .ok (rulesFilePath rulesStoragePath managerId, none)
  | some (.document d) => .ok (rulesFilePath rulesStoragePath managerId, some (yamlUnmarshal d))
  | some _ => .error (.other (lit "yaml: unmarshal errors"))

/-! ## Managers -/

/-- What a call returns: no error, or one; or it does not return. -/
inductive Reply
  | ok
  | error (e : Error)
  | blocked
  deriving DecidableEq

/-- The reply of a call that returns. -/
def Reply.ofError : Option Error → Reply
  | none => .ok
  | some e => .error e

/-- The reply, if it is not a success. -/
def Reply.failure? : Reply → Option Reply
  | .ok => none
  | reply => some reply

theorem Reply.failure?_eq_some_iff {reply reply' : Reply} :
    reply.failure? = some reply' ↔ reply' ≠ .ok ∧ reply = reply' := by
  cases reply with
  | ok => simp +contextual [failure?, eq_comm]
  | error e => simp +contextual [failure?, eq_comm]
  | blocked => simp +contextual [failure?, eq_comm]

/-- The `Manager` of a `PromRuleManager`: it is new, `Run` has been called, or a call holds
    its lock and waits for a group that is not evaluated. -/
inductive ManagerState
  | new
  | running
  | stuck
  deriving DecidableEq

/-- A `PromRuleManager`: what it was created with, its `Manager`, and the groups that this
    one has loaded, each by its text. -/
structure PromRuleManager where
  promRuleFile : Bytes
  alertManagers : Option AlertmanagerConfigs
  state : ManagerState
  groups : List Bytes
  deriving DecidableEq

/-- How the steps of `PromRuleManager.Reload` end: `LoadGroups` rejects the rule file, or it
    gives its groups, and then the alertmanagers are configured or not. -/
inductive ReloadOutcome
  | rejected (err : Bytes)
  | loaded (groups : List Bytes) (err : Option Bytes)

namespace PromRuleManager

/-- `NewPromRuleManager` (`internal/rules/prom_manager.go`, lines 34–75). -/
def create (promRuleFile : Bytes) (alertManagers : Option AlertmanagerConfigs) :
    PromRuleManager :=
  ⟨promRuleFile, alertManagers, .new, []⟩

/-- The groups can be stopped: they are evaluated, or there are none. -/
def CanStop (m : PromRuleManager) : Prop :=
  m.state = .running ∨ m.state = .new ∧ m.groups = []

instance (m : PromRuleManager) : Decidable m.CanStop := inferInstanceAs (Decidable (_ ∨ _))

/-- `Reload` (lines 98–125), with the manager after it. `Update` takes the lock, loads the
    file, and then stops the old groups. The groups stay loaded if an alertmanager cannot be
    configured. -/
def reload (m : PromRuleManager) (outcome : ReloadOutcome) : PromRuleManager × Reply :=
  if m.state = .stuck then (m, .blocked)
  else
    match outcome with
    | .rejected err => (m, .error (.other err))
    | .loaded groups err =>
      if m.CanStop then ({ m with groups := groups }, .ofError (err.map .other))
      else ({ m with state := .stuck }, .blocked)

/-- `Start` (lines 77–88): `Reload`, and `Run` if that succeeds. -/
def start (m : PromRuleManager) (outcome : ReloadOutcome) : PromRuleManager × Reply :=
  match m.reload outcome with
  | (m, .ok) => ({ m with state := .running }, .ok)
  | (m, reply) => (m, reply)

end PromRuleManager

/-- A node: its disk and its running managers. -/
structure LocalNode where
  disk : Disk
  promRuleManagers : GoMap Bytes PromRuleManager

/-- `Manager` (`internal/rules/remote_rule_manager.go`, lines 15–18). -/
structure Manager where
  id : Bytes
  alertManagers : Option AlertmanagerConfigs
  deriving DecidableEq

/-- `LocalRuleManager.CreateManager` (lines 23–35), with the node and the configurations
    after it. The file of a new manager has no groups. A manager whose start fails has been
    added. -/
def createManager (rulesStoragePath : Bytes) (o : Outcomes) (managerId : Bytes)
    (node : LocalNode) (alertManagers : Option AlertmanagerConfigs) :
    LocalNode × Option AlertmanagerConfigs × Except Error Manager :=
  match create rulesStoragePath o managerId node.disk alertManagers with
  | (disk, alertManagers, .error e) =>
    (⟨disk, node.promRuleManagers⟩, alertManagers, .error e)
  | (disk, alertManagers, .ok rulesFile) =>
    let manager := ((PromRuleManager.create rulesFile alertManagers).start
      (.loaded [] o.startError)).1
    let node := ⟨disk, node.promRuleManagers.insert managerId manager⟩
    match o.startError with
    | some err => (node, alertManagers, .error (.other err))
    | none => (node, alertManagers, .ok ⟨managerId, alertManagers⟩)

/-- `loadRules`: the managers that a node starts with, from the directories it finds. The
    error of `Create` is not looked at, so that a manager stays if its `Reload` fails. -/
def loadRules (rulesStoragePath : Bytes) (reload : Bytes → PromRuleManager → ReloadOutcome)
    (directories : List Bytes) (disk : Disk) : GoMap Bytes PromRuleManager :=
  directories.foldl (fun managers managerId =>
    match load rulesStoragePath managerId disk with
    | .error _ => managers
    | .ok (rulesFile, alertManagers) =>
      let manager := PromRuleManager.create rulesFile alertManagers
      managers.insert managerId (manager.start (reload managerId manager)).1) ∅

/-! ## What `Reload` and `Start` do to a manager -/

namespace PromRuleManager

variable (m : PromRuleManager) (outcome : ReloadOutcome)

/-- A manager without the groups that it has loaded. -/
def unloaded : PromRuleManager := { m with groups := [] }

theorem reload_alertManagers : (m.reload outcome).1.alertManagers = m.alertManagers := by
  unfold reload
  split
  · rfl
  · split
    · rfl
    · split <;> rfl

theorem start_alertManagers : (m.start outcome).1.alertManagers = m.alertManagers := by
  have h := m.reload_alertManagers outcome
  unfold start
  split
  · rename_i hreload
    rw [hreload] at h
    exact h
  · rename_i hreload
    rw [hreload] at h
    exact h

/-- A `Reload` that returns changes no more than the groups. -/
theorem reload_unloaded (h : (m.reload outcome).2 ≠ .blocked) :
    (m.reload outcome).1.unloaded = m.unloaded := by
  unfold reload at h ⊢
  split
  · rfl
  · split
    · rfl
    · split
      · rfl
      · simp_all

/-- A `Reload` that succeeds has loaded the groups. -/
theorem reload_eq_ok (h : (m.reload outcome).2 = .ok) :
    ∃ groups, outcome = .loaded groups none ∧
      (m.reload outcome).1 = { m with groups := groups } := by
  unfold reload at h ⊢
  split at h
  · cases h
  · rename_i hstate
    rw [if_neg hstate]
    cases outcome with
    | rejected err => cases h
    | loaded groups err =>
      dsimp only at h ⊢
      split at h
      · rename_i hstop
        rw [if_pos hstop]
        cases err with
        | none => exact ⟨groups, rfl, rfl⟩
        | some err => cases h
      · cases h

end PromRuleManager

/-! ## What `writeCerts` does to the configurations -/

section Certificates

variable (configs : AlertmanagerConfigs) (i j : ℕ) (kind kind' : CertKind) (value : Bytes)

@[simp] theorem setCertificate_certificate (c : AlertmanagerConfig) :
    c.setCertificate kind (c.certificate kind) = c := by
  cases kind <;> rfl

@[simp] theorem secrets_setCertificate (c : AlertmanagerConfig) :
    (c.setCertificate kind value).secrets = c.secrets := rfl

theorem certificate_setCertificate (c : AlertmanagerConfig) :
    (c.setCertificate kind value).certificate kind'
      = if kind = kind' then value else c.certificate kind' := by
  cases kind <;> cases kind' <;> rfl

theorem setCertificateAt_certificateAt :
    setCertificateAt configs i kind (certificateAt configs i kind) = configs := by
  unfold setCertificateAt certificateAt
  refine List.ext_getElem? fun k => ?_
  rw [List.getElem?_modify]
  by_cases hk : i = k
  · subst hk
    cases configs[i]? with
    | none => rfl
    | some c => simp
  · simp [hk]

/-- An assignment to one certificate leaves the others. -/
theorem certificateAt_setCertificateAt_ne (h : (i, kind) ≠ (j, kind')) :
    certificateAt (setCertificateAt configs i kind value) j kind'
      = certificateAt configs j kind' := by
  unfold setCertificateAt certificateAt
  rw [List.getElem?_modify]
  by_cases hij : i = j
  · subst hij
    have hkind : kind ≠ kind' := fun hk => h (by rw [hk])
    cases configs[i]? with
    | none => rfl
    | some c => simp [certificate_setCertificate, hkind]
  · simp [hij]

/-- The certificate assigned, of an alertmanager that is there. -/
theorem certificateAt_setCertificateAt (h : i < configs.length) :
    certificateAt (setCertificateAt configs i kind value) i kind = value := by
  unfold setCertificateAt certificateAt
  rw [List.getElem?_modify, List.getElem?_eq_getElem h]
  simp [certificate_setCertificate]

theorem map_secrets_setCertificateAt :
    (setCertificateAt configs i kind value).map AlertmanagerConfig.secrets
      = configs.map AlertmanagerConfig.secrets := by
  unfold setCertificateAt
  refine List.ext_getElem? fun k => ?_
  rw [List.getElem?_map, List.getElem?_map, List.getElem?_modify]
  by_cases hk : i = k
  · subst hk
    cases configs[i]? with
    | none => rfl
    | some c => simp
  · simp [hk]

/-- A certificate that is given inline belongs to an alertmanager that is there. -/
theorem lt_length_of_inline (h : certificateRegexp (certificateAt configs i kind) = true) :
    i < configs.length := by
  by_contra hi
  have hnone : configs[i]? = none := List.getElem?_eq_none (by omega)
  rw [certificateAt, hnone] at h
  exact absurd h (show certificateRegexp [] ≠ true by decide)

end Certificates

theorem slash_not_mem_decimal (n : ℕ) : slash ∉ decimal n := by
  intro h
  obtain ⟨c, hc, heq⟩ := List.mem_map.1 h
  have hdigit := Nat.isDigit_of_mem_toDigits (by decide) (by decide) hc
  rw [Char.isDigit_iff_toNat, show '0'.toNat = 48 from rfl, show '9'.toNat = 57 from rfl] at hdigit
  have hval := congrArg UInt8.toNat heq
  simp [slash] at hval
  omega

theorem length_certFileName (index ending : Bytes) : 13 ≤ (certFileName index ending).length := by
  have hlength : (lit "alertmanager-").length = 13 := by decide
  simp only [certFileName, List.length_append, hlength]
  omega

theorem plain_certFileName (i : ℕ) {ending : Bytes} (h : slash ∉ ending) :
    Plain (certFileName (configKey i) ending) := by
  -- it is longer than the three names that are not plain
  have hne : ∀ name : Bytes, name.length < 13 → certFileName (configKey i) ending ≠ name := by
    rintro name hname rfl
    have := length_certFileName (configKey i) ending
    omega
  refine ⟨hne _ (by decide), hne _ (by decide), hne _ (by decide), ?_⟩
  simp only [certFileName, configKey, List.mem_append, not_or]
  exact ⟨⟨by decide, by decide, slash_not_mem_decimal i⟩, h⟩

/-- A path that ends with a letter is not taken for a certificate. -/
theorem certificateRegexp_join (dir : Bytes) (i : ℕ) {ending : Bytes} (hslash : slash ∉ ending)
    {c : UInt8} (hlast : ending.getLast? = some c) (hc : c ∉ 45 :: spaces) :
    certificateRegexp (join [dir, certFileName (configKey i) ending]) = false := by
  rw [Bool.eq_false_iff]
  intro hcert
  obtain ⟨b, hb, hlast'⟩ := certificateRegexp_getLast hcert
  obtain ⟨front, hfront⟩ := join_eq_append (plain_certFileName i hslash) dir
  rw [hfront, certFileName, List.getLast?_append, List.getLast?_append, hlast] at hlast'
  cases hlast'
  exact hc hb

/-- The name of a certificate's file is not itself taken for a certificate. -/
theorem certificateRegexp_filePath (rulesStoragePath managerId : Bytes) (i : ℕ)
    (kind : CertKind) :
    certificateRegexp (filePath rulesStoragePath managerId i kind) = false := by
  cases kind with
  | ca => exact certificateRegexp_join _ i (c := 116) (by decide) (by decide) (by decide)
  | cert => exact certificateRegexp_join _ i (c := 116) (by decide) (by decide) (by decide)
  | key => exact certificateRegexp_join _ i (c := 121) (by decide) (by decide) (by decide)

section WriteCerts

variable (rulesStoragePath : Bytes) (o : Outcomes) (managerId : Bytes)

/-- Whether the certificate visited is given inline. -/
def inlineAt (configs : AlertmanagerConfigs) (v : ℕ × CertKind) : Bool :=
  certificateRegexp (certificateAt configs v.1 v.2)

/-- One visit of `writeCerts`: a certificate that is not inline stays, and one that is
    becomes the name of its file, unless the write fails. -/
theorem writeCertsFrom_cons (i : ℕ) (kind : CertKind) (rest : List (ℕ × CertKind)) (disk : Disk)
    (configs : AlertmanagerConfigs) :
    writeCertsFrom rulesStoragePath o managerId ((i, kind) :: rest) disk configs =
      if inlineAt configs (i, kind) then
        match o.writeError (filePath rulesStoragePath managerId i kind) with
        | some err =>
          (failedWrite o disk (filePath rulesStoragePath managerId i kind), configs, some err)
        | none => writeCertsFrom rulesStoragePath o managerId rest
            (disk.insert (filePath rulesStoragePath managerId i kind)
              (.text (certificateAt configs i kind)))
            (setCertificateAt configs i kind (filePath rulesStoragePath managerId i kind))
      else writeCertsFrom rulesStoragePath o managerId rest disk configs := by
  rw [writeCertsFrom, extractCertificate, inlineAt]
  by_cases hinline : certificateRegexp (certificateAt configs i kind) = true
  · rw [if_pos hinline, if_pos hinline]
    cases o.writeError (filePath rulesStoragePath managerId i kind) with
    | some err => simp [setCertificateAt_certificateAt]
    | none => rfl
  · rw [if_neg hinline, if_neg hinline]
    simp [setCertificateAt_certificateAt]

/-- A certificate that is not inline stays as it is. -/
theorem certificateAt_writeCertsFrom {i : ℕ} {kind : CertKind} (vs : List (ℕ × CertKind))
    (disk : Disk) {configs : AlertmanagerConfigs} (h : inlineAt configs (i, kind) = false) :
    certificateAt (writeCertsFrom rulesStoragePath o managerId vs disk configs).2.1 i kind
      = certificateAt configs i kind := by
  induction vs generalizing disk configs with
  | nil => rfl
  | cons v vs ih =>
    obtain ⟨j, kind'⟩ := v
    rw [writeCertsFrom_cons]
    by_cases hv : inlineAt configs (j, kind') = true
    · rw [if_pos hv]
      have hne : (j, kind') ≠ (i, kind) := by
        rintro heq
        rw [heq, h] at hv
        cases hv
      cases o.writeError (filePath rulesStoragePath managerId j kind') with
      | some err => rfl
      | none =>
        have hsame := certificateAt_setCertificateAt_ne configs j i kind' kind
          (filePath rulesStoragePath managerId j kind') hne
        rw [ih, hsame]
        rw [inlineAt, hsame]
        exact h
    · rw [if_neg hv]
      exact ih disk h

/-- **When `writeCerts` leaves the configurations alone**: when the first inline
    certificate that it visits, if any, cannot be written. -/
theorem writeCertsFrom_eq_self_iff (vs : List (ℕ × CertKind)) (disk : Disk)
    (configs : AlertmanagerConfigs) :
    (writeCertsFrom rulesStoragePath o managerId vs disk configs).2.1 = configs ↔
      ∀ v ∈ vs.find? (inlineAt configs),
        o.writeError (filePath rulesStoragePath managerId v.1 v.2) ≠ none := by
  induction vs with
  | nil => simp [writeCertsFrom]
  | cons v vs ih =>
    obtain ⟨i, kind⟩ := v
    rw [writeCertsFrom_cons, List.find?_cons]
    by_cases hv : inlineAt configs (i, kind) = true
    · rw [if_pos hv, hv]
      simp only [Option.mem_def, Option.some.injEq, forall_eq']
      cases hw : o.writeError (filePath rulesStoragePath managerId i kind) with
      | some err => simp
      | none =>
        -- the file name stays to the end, and is not the certificate
        have hlt := lt_length_of_inline configs i kind hv
        have hset := certificateAt_setCertificateAt configs i kind
          (filePath rulesStoragePath managerId i kind) hlt
        have hpath := certificateRegexp_filePath rulesStoragePath managerId i kind
        simp only [ne_eq, not_true_eq_false, iff_false]
        intro heq
        have hend := certificateAt_writeCertsFrom rulesStoragePath o managerId vs
          (disk.insert (filePath rulesStoragePath managerId i kind)
            (.text (certificateAt configs i kind)))
          (show inlineAt (setCertificateAt configs i kind _) (i, kind) = false by
            rw [inlineAt, hset]; exact hpath)
        rw [heq, hset] at hend
        rw [inlineAt, hend, hpath] at hv
        cases hv
    · rw [if_neg hv, ih]
      simp only [Bool.not_eq_true] at hv
      rw [hv]

theorem map_secrets_writeCertsFrom (vs : List (ℕ × CertKind)) (disk : Disk)
    (configs : AlertmanagerConfigs) :
    (writeCertsFrom rulesStoragePath o managerId vs disk configs).2.1.map
        AlertmanagerConfig.secrets = configs.map AlertmanagerConfig.secrets := by
  induction vs generalizing disk configs with
  | nil => rfl
  | cons v vs ih =>
    obtain ⟨i, kind⟩ := v
    rw [writeCertsFrom_cons]
    split
    · cases o.writeError (filePath rulesStoragePath managerId i kind) with
      | some err => rfl
      | none =>
        dsimp only
        rw [ih, map_secrets_setCertificateAt]
    · exact ih disk configs

end WriteCerts

/-! ## What `CreateManager` does to the configurations -/

section CreateManager

variable (rulesStoragePath : Bytes) (o : Outcomes) (managerId : Bytes)

/-- The call gets to the certificates: the manager is new, and its directory and rules
    can be written. -/
def Reaches (disk : Disk) : Prop :=
  o.statError = none ∧ ruleManagerDirectoryPath rulesStoragePath managerId ∉ disk ∧
    o.mkdirError = none ∧ o.writeError (rulesFilePath rulesStoragePath managerId) = none

/-- The call replaces a certificate: it gets to the certificates, and the first one given
    inline that it visits can be written to its file. -/
def Rewrites (disk : Disk) (alertManagers : Option AlertmanagerConfigs) : Prop :=
  Reaches rulesStoragePath o managerId disk ∧
    ∃ configs ∈ alertManagers, ∃ v ∈ (visits o.order configs).find? (inlineAt configs),
      o.writeError (filePath rulesStoragePath managerId v.1 v.2) = none

instance (disk : Disk) : Decidable (Reaches rulesStoragePath o managerId disk) :=
  inferInstanceAs (Decidable (_ ∧ _))

instance (disk : Disk) (alertManagers : Option AlertmanagerConfigs) :
    Decidable (Rewrites rulesStoragePath o managerId disk alertManagers) :=
  inferInstanceAs (Decidable (_ ∧ _))

theorem writeCerts_eq_self_iff (disk : Disk) (alertManagers : Option AlertmanagerConfigs) :
    (writeCerts rulesStoragePath o managerId disk alertManagers).2.1 = alertManagers ↔
      ∀ configs ∈ alertManagers, ∀ v ∈ (visits o.order configs).find? (inlineAt configs),
        o.writeError (filePath rulesStoragePath managerId v.1 v.2) ≠ none := by
  cases alertManagers with
  | none => simp [writeCerts]
  | some configs =>
    simp only [writeCerts, Option.mem_def, Option.some.injEq, forall_eq']
    exact writeCertsFrom_eq_self_iff rulesStoragePath o managerId (visits o.order configs) disk
      configs

/-- The disk when `Create` gets to the certificates. -/
def reachedDisk (disk : Disk) : Disk :=
  (disk.insert (ruleManagerDirectoryPath rulesStoragePath managerId) .directory).insert
    (rulesFilePath rulesStoragePath managerId) (.text (lit "groups: []\n"))

variable {rulesStoragePath o managerId} in
theorem create_configs_of_reaches {disk : Disk} (h : Reaches rulesStoragePath o managerId disk)
    (alertManagers : Option AlertmanagerConfigs) :
    (create rulesStoragePath o managerId disk alertManagers).2.1
      = (writeCerts rulesStoragePath o managerId
          (reachedDisk rulesStoragePath managerId disk) alertManagers).2.1 := by
  obtain ⟨hstat, hnew, hmkdir, hrules⟩ := h
  unfold create reachedDisk
  simp only [hstat, if_neg hnew, hmkdir, hrules]
  split
  · rename_i hcerts
    rw [hcerts]
  · rename_i hcerts
    rw [hcerts]
    split <;> rfl

variable {rulesStoragePath o managerId} in
theorem create_configs_of_not_reaches {disk : Disk}
    (h : ¬ Reaches rulesStoragePath o managerId disk)
    (alertManagers : Option AlertmanagerConfigs) :
    (create rulesStoragePath o managerId disk alertManagers).2.1 = alertManagers := by
  unfold create
  dsimp only
  split
  · rfl
  · rename_i hstat
    by_cases hexists : ruleManagerDirectoryPath rulesStoragePath managerId ∈ disk
    · rw [if_pos hexists]
    · rw [if_neg hexists]
      split
      · rfl
      · rename_i hmkdir
        split
        · rfl
        · rename_i hrules
          exact absurd ⟨hstat, hexists, hmkdir, hrules⟩ h

theorem createManager_configs (node : LocalNode) (alertManagers : Option AlertmanagerConfigs) :
    (createManager rulesStoragePath o managerId node alertManagers).2.1
      = (create rulesStoragePath o managerId node.disk alertManagers).2.1 := by
  unfold createManager
  split
  · rename_i hcreate; rw [hcreate]
  · rename_i hcreate
    rw [hcreate]
    dsimp only
    split <;> rfl

/-- **When `CreateManager` leaves the caller's configurations alone.** -/
theorem createManager_eq_self_iff (node : LocalNode)
    (alertManagers : Option AlertmanagerConfigs) :
    (createManager rulesStoragePath o managerId node alertManagers).2.1 = alertManagers ↔
      ¬ Rewrites rulesStoragePath o managerId node.disk alertManagers := by
  rw [createManager_configs, Rewrites]
  by_cases hreaches : Reaches rulesStoragePath o managerId node.disk
  · rw [create_configs_of_reaches hreaches, writeCerts_eq_self_iff]
    simp only [hreaches, true_and, not_exists, not_and]
  · rw [create_configs_of_not_reaches hreaches]
    simp [hreaches]

theorem map_secrets_createManager (node : LocalNode)
    (alertManagers : Option AlertmanagerConfigs) :
    ((createManager rulesStoragePath o managerId node alertManagers).2.1.getD []).map
        AlertmanagerConfig.secrets = (alertManagers.getD []).map AlertmanagerConfig.secrets := by
  rw [createManager_configs]
  by_cases hreaches : Reaches rulesStoragePath o managerId node.disk
  · rw [create_configs_of_reaches hreaches]
    cases alertManagers with
    | none => rfl
    | some configs => exact map_secrets_writeCertsFrom rulesStoragePath o managerId _ _ _
  · rw [create_configs_of_not_reaches hreaches]

/-- A successful `Create` writes the configurations last. -/
theorem create_eq_ok {disk disk' : Disk} {alertManagers after : Option AlertmanagerConfigs}
    {rulesFile : Bytes}
    (h : create rulesStoragePath o managerId disk alertManagers = (disk', after, .ok rulesFile)) :
    rulesFile = rulesFilePath rulesStoragePath managerId ∧
      disk'.lookup (alertManagerFilePath rulesStoragePath managerId)
        = some (.document (yamlMarshal after)) := by
  unfold create at h
  dsimp only at h
  split at h
  · cases h
  split at h
  · cases h
  split at h
  · cases h
  split at h
  · cases h
  split at h
  · cases h
  split at h
  · cases h
  · cases h
    exact ⟨rfl, AList.lookup_insert _⟩

end CreateManager

end MetricStore.Rules
